import GuestGate.Language.Basic
import GuestGate.Proofs.Source.Order

/-!
# Where declarations stand

Whatever the text, the methods that a scan finds stand one behind the other, each with its
parameters inside, and static initializers are found from top to bottom.  The end of a method
is put in when its body closes, so the open scopes have to tell which method that is: it is
always the last one found, because nothing is declared inside of a body.
-/

namespace GuestGate.CSharp

/-! ### Methods and initializers in order -/

/-- A method ends where it starts or behind, and its parameters begin in between, in order. -/
structure Method.IsRange (m : Method) : Prop where
  first_le : m.first ≤ m.last
  sorted : m.parameterLines.Pairwise (· ≤ ·)
  inside : ∀ line ∈ m.parameterLines, m.first.line ≤ line ∧ line ≤ m.last.line

/-- Ranges of which each ends before all that come later begin. -/
structure Method.Apart (methods : List Method) : Prop where
  ranges : ∀ m ∈ methods, m.IsRange
  apart : methods.Pairwise fun m later ↦ m.last < later.first

structure StaticInitializer.Sorted (initializers : List StaticInitializer) : Prop where
  one_le : ∀ i ∈ initializers, 1 ≤ i.line
  sorted : initializers.Pairwise fun i later ↦ i.line ≤ later.line

theorem Method.apart_concat_iff {methods : List Method} {m : Method} :
    Method.Apart (methods ++ [m]) ↔
      Method.Apart methods ∧ m.IsRange ∧ ∀ earlier ∈ methods, earlier.last < m.first := by
  constructor
  · rintro ⟨hranges, hapart⟩
    obtain ⟨hmethods, -, hlast⟩ := List.pairwise_append.mp hapart
    exact ⟨⟨fun earlier h ↦ hranges earlier (List.mem_append_left _ h), hmethods⟩,
      hranges m (by simp), fun earlier h ↦ hlast earlier h m (List.mem_singleton_self m)⟩
  · rintro ⟨⟨hranges, hapart⟩, hrange, hlast⟩
    refine ⟨fun earlier h ↦ ?_, List.pairwise_append.mpr ⟨hapart, List.pairwise_singleton _ _, ?_⟩⟩
    · obtain h | h := List.mem_append.mp h
      · exact hranges earlier h
      · exact List.mem_singleton.mp h ▸ hrange
    · intro earlier h later hlater
      exact List.mem_singleton.mp hlater ▸ hlast earlier h

theorem StaticInitializer.Sorted.concat {initializers : List StaticInitializer}
    {i : StaticInitializer} (h : Sorted initializers) (hone : 1 ≤ i.line)
    (hlast : ∀ earlier ∈ initializers, earlier.line ≤ i.line) : Sorted (initializers ++ [i]) where
  one_le := by
    intro j hj
    obtain hj | hj := List.mem_append.mp hj
    · exact h.one_le j hj
    · exact List.mem_singleton.mp hj ▸ hone
  sorted := by
    refine List.pairwise_append.mpr ⟨h.sorted, List.pairwise_singleton _ _, ?_⟩
    intro earlier hearlier later hlater
    exact List.mem_singleton.mp hlater ▸ hlast earlier hearlier

/-! ### Parameters of a header -/

theorem parameterList?_suffix {depth : Nat} {before ts : List Token} {m : MethodHeader}
    (h : parameterList? depth before ts = some m) : m.parameters <:+ ts := by
  induction ts generalizing depth before with
  | nil => simp [parameterList?] at h
  | cons t ts ih =>
      rw [parameterList?] at h
      split at h
      · cases h
      · split at h
        · split at h
          · cases h
            exact List.suffix_cons t ts
          · exact (ih h).trans (List.suffix_cons t ts)
        · exact (ih h).trans (List.suffix_cons t ts)

theorem methodHeader?_suffix {header : List Token} {m : MethodHeader}
    (h : methodHeader? header = some m) : m.parameters <:+ header := by
  unfold methodHeader? at h
  split at h
  · cases h
  · exact parameterList?_suffix h

theorem parameterLinesFrom_sublist (scan : ParameterScan) (ts : List Token) :
    (parameterLinesFrom scan ts).Sublist (ts.map (·.position.line)) := by
  induction ts generalizing scan with
  | nil => exact List.Sublist.refl _
  | cons t ts ih =>
      obtain ⟨depth, fresh⟩ := scan
      rw [parameterLinesFrom, List.map_cons]
      split
      · exact List.nil_sublist _
      · split
        · exact (ih _).cons _
        · cases fresh with
          | true => exact (ih _).cons_cons _
          | false => exact (ih _).cons _

/-- The parameters of a header begin on lines of the header. -/
theorem parameterLines_sublist {header : List Token} {m : MethodHeader}
    (h : methodHeader? header = some m) :
    (parameterLines m.parameters).Sublist (header.map (·.position.line)) :=
  (parameterLinesFrom_sublist _ _).trans ((methodHeader?_suffix h).sublist.map _)

namespace Scanner

/-! ### The open scopes -/

def NoBody (scopes : List Scope) : Prop :=
  ∀ method, Scope.memberBody method ∉ scopes

/-- Scopes that know of methods at most the last of some number, from which blocks inside its
body go on. -/
inductive Nested (count : Nat) : List Scope → Prop
  | outside {scopes : List Scope} (h : NoBody scopes) : Nested count scopes
  | body {index : Nat} {outer : List Scope} (hlast : index + 1 = count) (h : NoBody outer) :
      Nested count (.memberBody (some index) :: outer)
  | block {scopes : List Scope} (h : Nested count scopes) :
      Nested count (.memberBody none :: scopes)

variable {s : Scanner} {p q : Position}

/-- Where the declaration starts that is being read, if a place is where its next token would
be. -/
def front (s : Scanner) (p : Position) : Position :=
  (s.header.head?.map Token.position).getD p

/-- All that has been read stands in order before a place. -/
structure InOrder (s : Scanner) (p : Position) : Prop where
  methods : Method.Apart s.found.methods
  methods_lt : ∀ m ∈ s.found.methods, m.last < s.front p
  initializers : StaticInitializer.Sorted s.found.staticInitializers
  initializers_le : ∀ i ∈ s.found.staticInitializers, i.line ≤ (s.front p).line
  one_le : 1 ≤ (s.front p).line
  header : s.header.Pairwise fun t later ↦ t.position ≤ later.position
  header_lt : ∀ t ∈ s.header, t.position < p
  nested : Nested s.found.methods.length s.scopes
  quiet : ∀ method outer, s.scopes = .memberBody method :: outer → s.header = []

/-! ### What is recorded -/

/-- Declarations up to a place, in order. -/
structure Recorded (found : Declarations) (p : Position) : Prop where
  methods : Method.Apart found.methods
  methods_le : ∀ m ∈ found.methods, m.last ≤ p
  initializers : StaticInitializer.Sorted found.staticInitializers
  initializers_le : ∀ i ∈ found.staticInitializers, i.line ≤ p.line

theorem front_nil (hheader : s.header = []) : s.front p = p := by
  rw [front, hheader]
  rfl

theorem front_cons {t : Token} {ts : List Token} (hheader : s.header = t :: ts) :
    s.front p = t.position := by
  rw [front, hheader]
  rfl

namespace InOrder

theorem front_le (h : s.InOrder p) : s.front p ≤ p := by
  cases hheader : s.header with
  | nil => rw [front_nil hheader]
  | cons t ts =>
      rw [front_cons hheader]
      exact (h.header_lt t (by simp [hheader])).le

theorem one_le_line (h : s.InOrder p) : 1 ≤ p.line :=
  h.one_le.trans (Position.line_le h.front_le)

theorem recorded (h : s.InOrder p) : Recorded s.found p where
  methods := h.methods
  methods_le m hm := ((h.methods_lt m hm).trans_le h.front_le).le
  initializers := h.initializers
  initializers_le i hi := (h.initializers_le i hi).trans (Position.line_le h.front_le)

/-- An initializer is recorded on the line of the header, which comes after all others. -/
theorem recordStatic (h : s.InOrder p) {found : Declarations} (hfound : Recorded found p)
    (hsame : found.staticInitializers = s.found.staticInitializers) (hheader : s.header ≠ [])
    (types : List String) :
    Recorded (Scanner.recordStatic { s with found := found } types).found p := by
  obtain ⟨t, ts, hcons⟩ := List.exists_cons_of_ne_nil hheader
  have hfront : s.front p = t.position := front_cons hcons
  have hline : ((s.header.head?.map fun t ↦ t.position.line).getD 0) = t.position.line := by
    rw [hcons]
    rfl
  have hone := h.one_le
  have hbefore := h.initializers_le
  have hle := Position.line_le h.front_le
  rw [hfront] at hone hbefore hle
  refine ⟨hfound.methods, hfound.methods_le, ?_, ?_⟩
  · simp only [Scanner.recordStatic, hline, hsame]
    exact h.initializers.concat hone hbefore
  · intro i hi
    simp only [Scanner.recordStatic, hline, List.mem_append, List.mem_singleton] at hi
    obtain hi | rfl := hi
    · exact hfound.initializers_le i hi
    · exact hle

/-- A method is recorded from the first token of the header up to the place. -/
theorem recordMethod (h : s.InOrder p) {m : MethodHeader} (hm : methodHeader? s.header = some m)
    (types : List String) : Recorded (s.recordMethod types m p).found p := by
  have hheader : s.header ≠ [] := by
    intro hnil
    rw [hnil] at hm
    cases hm
  obtain ⟨t, ts, hcons⟩ := List.exists_cons_of_ne_nil hheader
  have hfront : s.front p = t.position := front_cons hcons
  have hfirst : ((s.header.head?.map Token.position).getD p) = t.position := hfront
  -- the lines of the parameters are lines of tokens of the header, which are in order
  have hsublist := parameterLines_sublist hm
  have hsorted : (s.header.map (·.position.line)).Pairwise (· ≤ ·) :=
    List.pairwise_map.mpr (h.header.imp Position.line_le)
  have hrange : Method.IsRange
      ⟨m.methodName, t.position, p, parameterLines m.parameters⟩ := by
    refine ⟨hfront ▸ h.front_le, hsorted.sublist hsublist, fun line hline ↦ ?_⟩
    obtain ⟨u, hu, rfl⟩ := List.mem_map.mp (hsublist.mem hline)
    refine ⟨?_, Position.line_le (h.header_lt u hu).le⟩
    rw [hcons] at hu hsorted
    obtain rfl | hu := List.mem_cons.mp hu
    · exact Nat.le_refl _
    · exact (List.pairwise_cons.mp hsorted).1 _ (List.mem_map_of_mem hu)
  have hfound : Recorded
      { s.found with
        methods := s.found.methods ++
          [⟨m.methodName, t.position, p, parameterLines m.parameters⟩] } p := by
    refine ⟨Method.apart_concat_iff.mpr ⟨h.methods, hrange, ?_⟩, fun other hother ↦ ?_,
      h.initializers, h.recorded.initializers_le⟩
    · exact hfront ▸ h.methods_lt
    · obtain hother | hother := List.mem_append.mp hother
      · exact h.recorded.methods_le other hother
      · rw [List.mem_singleton.mp hother]
  rw [Scanner.recordMethod, hfirst]
  split
  · exact h.recordStatic hfound rfl hheader types
  · exact hfound

end InOrder

theorem length_recordMethod (s : Scanner) (types : List String) (m : MethodHeader)
    (p : Position) :
    (s.recordMethod types m p).found.methods.length = s.found.methods.length + 1 := by
  unfold recordMethod
  split <;> simp [recordStatic]

theorem scopes_recordMethod (s : Scanner) (types : List String) (m : MethodHeader)
    (p : Position) : (s.recordMethod types m p).scopes = s.scopes := by
  unfold recordMethod
  split <;> rfl

/-- A header that is looked at for something static is not empty. -/
theorem ne_nil_of_isStatic {header : List Token} (h : isStatic header = true) : header ≠ [] := by
  rintro rfl
  cases h

theorem NoBody.nested {scopes : List Scope} (h : NoBody scopes) (count : Nat) {scope : Scope}
    (hscope : ∀ method, scope ≠ .memberBody method) : Nested count (scope :: scopes) := by
  refine .outside fun method hmem ↦ ?_
  obtain hmem | hmem := List.mem_cons.mp hmem
  · exact hscope method hmem.symm
  · exact h method hmem

/-- An opening brace records what is in front of it, and the scope it opens knows a method
only if that has just been recorded. -/
theorem InOrder.openScope (h : s.InOrder p) (hout : NoBody s.scopes) :
    Recorded (s.openScope p).1.found p ∧ (s.openScope p).1.scopes = s.scopes ∧
      Nested (s.openScope p).1.found.methods.length ((s.openScope p).2 :: s.scopes) := by
  have hblock : ∀ count, Nested count (.memberBody none :: s.scopes) := fun count ↦
    .block (.outside hout)
  have hread : InOrder { s with awaitsInitializer := false } p := { h with }
  unfold Scanner.openScope
  split
  · exact ⟨h.recorded, rfl, hout.nested _ nofun⟩
  · split
    · exact ⟨h.recorded, rfl, hout.nested _ nofun⟩
    · split
      · exact ⟨h.recorded, rfl, hblock _⟩
      · next types _ =>
          dsimp only
          split
          · next m hm =>
              refine ⟨hread.recordMethod hm types, scopes_recordMethod _ _ _ _, ?_⟩
              exact .body
                (length_recordMethod { s with awaitsInitializer := false } types m p).symm hout
          · split
            · next hstatic =>
                split
                · exact ⟨hread.recordStatic hread.recorded rfl (ne_nil_of_isStatic hstatic) types,
                    rfl, hblock _⟩
                · exact ⟨h.recorded, rfl, hblock _⟩
            · exact ⟨h.recorded, rfl, hblock _⟩

theorem InOrder.endDeclaration (h : s.InOrder p) :
    Recorded (s.endDeclaration p).found p ∧ (s.endDeclaration p).scopes = s.scopes := by
  unfold Scanner.endDeclaration
  split
  · next types t ts _ hheader =>
      split
      · exact ⟨h.recorded, rfl⟩
      · split
        · next m hm => exact ⟨h.recordMethod hm types, scopes_recordMethod _ _ _ _⟩
        · split
          · exact ⟨h.recordStatic h.recorded rfl (by simp [hheader]) types, rfl⟩
          · exact ⟨h.recorded, rfl⟩
  · exact ⟨h.recorded, rfl⟩

/-! ### One token -/

/-- After a declaration the next one starts further on. -/
theorem Recorded.inOrder {found : Declarations} (h : Recorded found p) (hlt : p < q)
    (hone : 1 ≤ p.line) {scopes : List Scope} (hnested : Nested found.methods.length scopes)
    (awaits : Bool) : InOrder ⟨scopes, [], awaits, found⟩ q where
  methods := h.methods
  methods_lt m hm := (h.methods_le m hm).trans_lt hlt
  initializers := h.initializers
  initializers_le i hi := (h.initializers_le i hi).trans (Position.line_le hlt.le)
  one_le := hone.trans (Position.line_le hlt.le)
  header := .nil
  header_lt := List.forall_mem_nil _
  nested := hnested
  quiet _ _ _ := rfl

theorem InOrder.mono (h : s.InOrder p) (hle : p ≤ q) : s.InOrder q := by
  have hfront : s.front p ≤ s.front q := by
    cases hheader : s.header with
    | nil => rw [front_nil hheader, front_nil hheader]; exact hle
    | cons t ts => rw [front_cons hheader, front_cons hheader]
  exact {
    methods := h.methods
    methods_lt := fun m hm ↦ (h.methods_lt m hm).trans_le hfront
    initializers := h.initializers
    initializers_le := fun i hi ↦ (h.initializers_le i hi).trans (Position.line_le hfront)
    one_le := h.one_le.trans (Position.line_le hfront)
    header := h.header
    header_lt := fun t ht ↦ (h.header_lt t ht).trans_le hle
    nested := h.nested
    quiet := h.quiet }

/-- When its body closes, the last method ends further down than before. -/
theorem InOrder.endMethod (h : s.InOrder p) (hheader : s.header = []) {index : Nat}
    (hlast : index + 1 = s.found.methods.length) :
    Recorded (s.endMethod index p).found p ∧
      (s.endMethod index p).found.methods.length = s.found.methods.length := by
  have hne : s.found.methods ≠ [] := List.ne_nil_of_length_eq_add_one hlast.symm
  obtain ⟨earlier, m, hmethods⟩ := (List.eq_nil_or_concat s.found.methods).resolve_left hne
  rw [List.concat_eq_append] at hmethods
  have hlength : earlier.length = index := by
    simpa [hmethods] using hlast.symm
  have hmodify : (earlier ++ [m]).modify earlier.length (fun m ↦ { m with last := p }) =
      earlier ++ [{ m with last := p }] :=
    List.modifyTailIdx_add (List.modifyHead fun m : Method ↦ { m with last := p }) 0 earlier [m]
  have hfound : (s.endMethod index p).found =
      { s.found with methods := earlier ++ [{ m with last := p }] } := by
    rw [Scanner.endMethod, hmethods, ← hlength, hmodify]
  have hold := h.methods
  have hbefore := h.methods_lt
  rw [hmethods] at hold hbefore
  rw [front_nil hheader] at hbefore
  obtain ⟨hearlier, hrange, hapart⟩ := Method.apart_concat_iff.mp hold
  have hlt : m.last < p := hbefore m (by simp)
  have hranges : Method.IsRange { m with last := p } :=
    ⟨hrange.first_le.trans hlt.le, hrange.sorted, fun line hline ↦
      ⟨(hrange.inside line hline).1,
        (hrange.inside line hline).2.trans (Position.line_le hlt.le)⟩⟩
  rw [hfound]
  refine ⟨⟨Method.apart_concat_iff.mpr ⟨hearlier, hranges, hapart⟩, fun other hother ↦ ?_,
    h.initializers, h.recorded.initializers_le⟩, by simp [hmethods]⟩
  obtain hother | hother := List.mem_append.mp hother
  · exact (hbefore other (List.mem_append_left _ hother)).le
  · rw [List.mem_singleton.mp hother]

theorem Nested.noBody {count : Nat} {scopes : List Scope} (h : Nested count scopes)
    (htop : ∀ method outer, scopes ≠ .memberBody method :: outer) : NoBody scopes := by
  cases h with
  | outside h => exact h
  | body _ _ => exact absurd rfl (htop _ _)
  | block _ => exact absurd rfl (htop _ _)

theorem Nested.tail {count : Nat} {method : Option Nat} {outer : List Scope}
    (h : Nested count (.memberBody method :: outer)) : Nested count outer := by
  cases h with
  | outside h => exact absurd (List.mem_cons_self) (h method)
  | body _ h => exact .outside h
  | block h => exact h

theorem Nested.last {count index : Nat} {outer : List Scope}
    (h : Nested count (.memberBody (some index) :: outer)) : index + 1 = count := by
  cases h with
  | outside h => exact absurd (List.mem_cons_self) (h (some index))
  | body hlast _ => exact hlast

theorem InOrder.pushInBody {t : Token} (h : s.InOrder t.position) (hlt : t.position < q)
    {method : Option Nat} {outer : List Scope} (hscopes : s.scopes = .memberBody method :: outer) :
    (s.pushInBody method outer t).InOrder q := by
  have hheader : s.header = [] := h.quiet method outer hscopes
  have hnested : Nested s.found.methods.length (.memberBody method :: outer) :=
    hscopes ▸ h.nested
  have hclear : s = ⟨s.scopes, [], s.awaitsInitializer, s.found⟩ := by rw [← hheader]
  unfold Scanner.pushInBody
  split
  · rw [hclear]
    exact h.recorded.inOrder hlt h.one_le_line (.block h.nested) _
  · split
    · cases method with
      | none =>
          rw [hclear]
          exact h.recorded.inOrder hlt h.one_le_line hnested.tail _
      | some index =>
          obtain ⟨hfound, hlength⟩ := h.endMethod hheader hnested.last
          rw [hclear]
          exact hfound.inOrder hlt h.one_le_line (hlength ▸ hnested.tail) _
    · exact h.mono hlt.le

/-- A token of a header stands behind the others. -/
theorem InOrder.append {t : Token} (h : s.InOrder t.position) (hlt : t.position < q)
    (hout : NoBody s.scopes) : InOrder { s with header := s.header ++ [t] } q := by
  have hfront : front { s with header := s.header ++ [t] } q = s.front t.position := by
    cases hheader : s.header with
    | nil => rw [front_nil hheader]; rfl
    | cons u us => rw [front_cons hheader]; rfl
  exact {
    methods := h.methods
    methods_lt := hfront ▸ h.methods_lt
    initializers := h.initializers
    initializers_le := hfront ▸ h.initializers_le
    one_le := hfront ▸ h.one_le
    header := List.pairwise_append.mpr ⟨h.header, List.pairwise_singleton _ _,
      fun u hu v hv ↦ List.mem_singleton.mp hv ▸ (h.header_lt u hu).le⟩
    header_lt := fun u hu ↦ (List.mem_append.mp hu).elim
      (fun hu ↦ (h.header_lt u hu).trans hlt) (fun hu ↦ List.mem_singleton.mp hu ▸ hlt)
    nested := .outside hout
    quiet := fun method outer hscopes ↦
      absurd (hscopes ▸ List.mem_cons_self) (hout method) }

theorem InOrder.pushOutside {t : Token} (h : s.InOrder t.position) (hlt : t.position < q)
    (hout : NoBody s.scopes) : (s.pushOutside t).InOrder q := by
  unfold Scanner.pushOutside
  split
  · obtain ⟨hfound, hscopes, hnested⟩ := h.openScope hout
    exact hfound.inOrder hlt h.one_le_line (hscopes.symm ▸ hnested) _
  · split
    · obtain ⟨hfound, hscopes⟩ := h.endDeclaration
      exact hfound.inOrder hlt h.one_le_line (.outside (hscopes.symm ▸ hout)) _
    · split
      · exact h.recorded.inOrder hlt h.one_le_line
          (.outside fun method hmem ↦ hout method (List.mem_of_mem_tail hmem)) _
      · exact h.append hlt hout

/-- What a token adds is in order with what was there. -/
theorem InOrder.push {t : Token} (h : s.InOrder t.position) (hlt : t.position < q) :
    (s.push t).InOrder q := by
  unfold Scanner.push
  split
  · next method outer hscopes => exact h.pushInBody hlt hscopes
  · next hscopes => exact h.pushOutside hlt (h.nested.noBody hscopes)

/-- Pieces of text that are not empty lead a scan on in order. -/
theorem InOrder.foldl_push {pieces : List Piece} (hpieces : ∀ piece ∈ pieces, piece.text ≠ [])
    (h : s.InOrder p) :
    ((tokensOf p pieces).foldl Scanner.push s).InOrder (p.after (pieces.flatMap Piece.text)) := by
  induction pieces generalizing s p with
  | nil => exact h
  | cons piece rest ih =>
      obtain ⟨hfirst, hrest⟩ := List.forall_mem_cons.mp hpieces
      rw [List.flatMap_cons, Position.after_append]
      obtain ⟨_ | kind, text⟩ := piece
      · exact ih hrest (h.mono (p.le_after text))
      · exact ih hrest (InOrder.push (t := ⟨kind, text, p⟩) h (p.lt_after hfirst))

end Scanner

theorem text_ne_nil_of_mem_pieces {text : List Char} :
    ∀ piece ∈ pieces text, piece.text ≠ [] := by
  fun_induction pieces text with
  | case1 => exact List.forall_mem_nil _
  | case2 c rest ih => exact List.forall_mem_cons.mpr ⟨nextPiece_text_ne_nil c rest, ih⟩

/-- Whatever is scanned is found in order. -/
theorem exists_recorded_scan (text : List Char) :
    ∃ p, Scanner.Recorded (Declarations.scan text) p := by
  have hstart : Scanner.InOrder {} .start := {
    methods := ⟨List.forall_mem_nil _, .nil⟩
    methods_lt := List.forall_mem_nil _
    initializers := ⟨List.forall_mem_nil _, .nil⟩
    initializers_le := List.forall_mem_nil _
    one_le := Nat.le_refl _
    header := .nil
    header_lt := List.forall_mem_nil _
    nested := .outside fun _ ↦ List.not_mem_nil
    quiet := fun _ _ _ ↦ rfl }
  exact ⟨_, (hstart.foldl_push text_ne_nil_of_mem_pieces).recorded⟩

/-! ### The method around a place -/

theorem Method.contains_iff {m : Method} {p : Position} :
    m.contains p = true ↔ m.first ≤ p ∧ p ≤ m.last := by
  simp [contains, Position.before_iff]

/-- Of methods that stand apart only the first that is found contains a place. -/
theorem Method.filter_contains {methods : List Method} (h : Method.Apart methods)
    (p : Position) :
    methods.filter (·.contains p) = (methods.find? (·.contains p)).toList := by
  obtain ⟨hranges, hapart⟩ := h
  induction methods with
  | nil => rfl
  | cons m rest ih =>
      obtain ⟨hfirst, hrest⟩ := List.pairwise_cons.mp hapart
      have hranges : ∀ later ∈ rest, later.IsRange := (List.forall_mem_cons.mp hranges).2
      by_cases hm : m.contains p = true
      · have hnone : rest.filter (·.contains p) = [] := by
          refine List.filter_eq_nil_iff.mpr fun later hlater hcontains ↦ ?_
          have hlast := (contains_iff.mp hm).2
          exact absurd ((hfirst later hlater).trans_le (contains_iff.mp hcontains).1) hlast.not_gt
        rw [List.filter_cons, if_pos hm, List.find?_cons, hm, hnone]
        rfl
      · rw [List.filter_cons, if_neg hm, List.find?_cons, Bool.eq_false_iff.mpr hm,
          ih hranges hrest]

/-- Whatever the text, methods end where they start or behind, each strictly before the next
begins, with their parameters in order in between, and initializers are found on lines that
exist, from top to bottom.  So a place is inside of one method at most, and that is the one
whose parameters are reported there. -/
theorem scan_in_order (text : String) :
    Method.Apart (Declarations.scan text.toList).methods ∧
      StaticInitializer.Sorted (Declarations.scan text.toList).staticInitializers ∧
      ∀ p, ((Declarations.scan text.toList).methods.filter (·.contains p)).length ≤ 1 ∧
        ((Declarations.scan text.toList).methodAt? p).toList =
          (Declarations.scan text.toList).methods.filter (·.contains p) ∧
        Language.csharp.parameterLines text p =
          ((Declarations.scan text.toList).methods.filter (·.contains p)).flatMap
            Method.parameterLines := by
  obtain ⟨_, hscan⟩ := exists_recorded_scan text.toList
  refine ⟨hscan.methods, hscan.initializers, fun p ↦ ?_⟩
  have hfilter := Method.filter_contains hscan.methods p
  refine ⟨?_, hfilter.symm, ?_⟩
  · rw [hfilter]
    exact Option.length_toList_le
  · rw [hfilter, Language.parameterLines, Declarations.methodAt?]
    cases (Declarations.scan text.toList).methods.find? (·.contains p) with
    | none => rfl
    | some m => exact (List.append_nil _).symm

end GuestGate.CSharp
