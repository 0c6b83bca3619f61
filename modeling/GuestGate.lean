import GuestGate.Text.Split
import GuestGate.Text.Utf8
import GuestGate.Text.Duration
import GuestGate.Diagnostic
import GuestGate.Member
import GuestGate.CallSite
import GuestGate.Language.Registry
import GuestGate.Run.Config
import GuestGate.Run.Flow
import GuestGate.Run.Output
import GuestGate.Run.Limiter
import GuestGate.Run.Interruption
import GuestGate.Run.Cache
import GuestGate.Guest.Script
import GuestGate.Run.Machine
import GuestGate.Policy.Bundled
import GuestGate.Policy.Enforcement
import GuestGate.Wat.Line
import GuestGate.Host.Basic
import GuestGate.Request.Update
import GuestGate.Proofs.Policy.Reordering
import GuestGate.Proofs.Host.Linking
import GuestGate.Proofs.Policy.Validity
import GuestGate.Proofs.Host.Admission
import GuestGate.Proofs.Host.Guarding
import GuestGate.Proofs.Request.Gating
import GuestGate.Proofs.Request.Suppressing
import GuestGate.Proofs.Policy.Family
import GuestGate.Proofs.Policy.Equality
import GuestGate.Proofs.Run.Refusal
import GuestGate.Proofs.Run.Performing
import GuestGate.Proofs.Run.Peak
import GuestGate.Proofs.Run.Capturing
import GuestGate.Proofs.Run.Writing
import GuestGate.Proofs.Run.Logging
import GuestGate.Proofs.Run.Recording
import GuestGate.Proofs.Run.Limits
import GuestGate.Proofs.Run.Draining
import GuestGate.Proofs.Run.Passing
import GuestGate.Proofs.CSharp.Header
import GuestGate.Proofs.CSharp.Brackets
import GuestGate.Proofs.CSharp.Parameters
import GuestGate.Proofs.CSharp.Scanning
import GuestGate.Proofs.CSharp.Ranges
import GuestGate.Proofs.CSharp.Enclosing
import GuestGate.Proofs.CSharp.Lead
import GuestGate.Proofs.CSharp.AutoProperty
import GuestGate.Proofs.CSharp.MethodLike
import GuestGate.Proofs.CSharp.Bodies
import GuestGate.Proofs.CSharp.Found
import GuestGate.Proofs.CSharp.FieldLike
import GuestGate.Proofs.CSharp.Operator
import GuestGate.Proofs.Session.Settling
import GuestGate.Proofs.Session.Framing
import GuestGate.Proofs.Run.Caching
import GuestGate.Proofs.Text.Lines
import GuestGate.Proofs.Text.Words
import GuestGate.Proofs.Text.Respelling
import GuestGate.Proofs.VisualBasic.Reading
import GuestGate.Proofs.VisualBasic.Scanning
import GuestGate.Proofs.VisualBasic.Respelling
import GuestGate.Proofs.VisualBasic.Fields
import GuestGate.Proofs.FSharp.Paths
import GuestGate.Proofs.FSharp.Offside
import GuestGate.Proofs.FSharp.Comments
import GuestGate.Proofs.Surface.Naming
import GuestGate.Proofs.Policy.Composition
import GuestGate.Proofs.Policy.Ordering
import GuestGate.Proofs.Policy.Listing
import GuestGate.Proofs.Session.Unsafe
import GuestGate.Proofs.Text.Cutting
import GuestGate.Proofs.Text.Slicing
import GuestGate.Proofs.CSharp.Cursor
import GuestGate.Proofs.CSharp.Units
import GuestGate.Proofs.CSharp.Tiling
import GuestGate.Proofs.CSharp.Indices
import GuestGate.Proofs.CSharp.Stored
import GuestGate.Proofs.FSharp.Offsets
import GuestGate.Proofs.VisualBasic.Offsets
import GuestGate.Proofs.Source.Faults
