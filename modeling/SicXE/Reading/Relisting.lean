import SicXE.Assembly.Listing
import SicXE.Reading.Program

/-! # Relisting

A program is read, listed, and its listing read again, for a number of rounds. Each round after
the first says whether it gave the same program as the one before, positions included.
-/
namespace SicXE.Reading

structure Round where
  listing : Text
  same : Option Bool
  deriving DecidableEq,Repr

def relistFrom (previous : Option Program) :
    Nat → Text → List (Except Diagnostic Round)
  | 0,_ => []
  | rounds + 1,source =>
    match Program.parse source with
    | .error e => [.error e]
    | .ok program =>
      .ok ⟨program.listing,previous.map (· == program)⟩ ::
        relistFrom (some program) rounds program.listing

/-- The rounds of a source text; a fault ends them. -/
def relist (rounds : Nat) (source : Text) : List (Except Diagnostic Round) :=
  relistFrom none rounds source

end SicXE.Reading
