import FourState.Record.Options
import FourState.Record.Reader

/-!
# Merging records

Merging adds the coverage of a record to a vector of the same width and kind.
The vector changes only after the whole record has been read: its words are
taken in one run, and cut into slices afterwards.  A record of another width can
be skipped, word by word.
-/

namespace FourState

/-- Cut a run of words into a number of slices: each takes one word for every live
plane, and the other planes stay clear. -/
def slicesOfRun (kind : Kind) : Nat → List Word → List (Slice 32)
  | 0, _ => []
  | count + 1, run =>
      (Slice.ofPlanes fun plane => (run.take kind.planeCount).getD plane.val 0) ::
        slicesOfRun kind count (run.drop kind.planeCount)

@[simp] theorem length_slicesOfRun (kind : Kind) (count : Nat) (run : List Word) :
    (slicesOfRun kind count run).length = count := by
  induction count generalizing run with
  | zero => rfl
  | succ count inductionHypothesis => rw [slicesOfRun, List.length_cons, inductionHypothesis]

/-- A slice that is cut from a run has no bits outside the live planes. -/
theorem get_of_mem_slicesOfRun
    {kind : Kind}
    {count : Nat}
    {run : List Word}
    {slice : Slice 32}
    (isSlice : slice ∈ slicesOfRun kind count run)
    {plane : Plane}
    (dead : kind.hasPlane plane = false) :
    slice.get plane = 0 := by
  have unused : kind.planeCount ≤ plane.val := by simpa [Kind.hasPlane] using dead
  induction count generalizing run with
  | zero => cases isSlice
  | succ count inductionHypothesis =>
      obtain rfl | isLater := List.mem_cons.1 isSlice
      · have noWord : (run.take kind.planeCount)[plane.val]? = none :=
          List.getElem?_eq_none (Nat.le_trans (List.length_take_le _ _) unused)
        rw [Slice.get_ofPlanes, List.getD_eq_getElem?_getD, noWord]
        rfl
      · exact inductionHypothesis isLater

namespace LogicVector

/-- Add the coverage planes of a record's words, and drop bits past the width. -/
def addCoverage (vector : LogicVector) (added : Block) : LogicVector :=
  { vector with
    storage := vector.storage.map fun block =>
      Block.restrict (block.mapIdx fun index slice =>
        slice.mark fun plane => if plane.isCoverage then added.word plane index else 0)
        vector.width }

/-- Merge a record from the front of a text, and tell what remains unread. -/
def mergeRecord (vector : LogicVector) (text : List Char) (options : RecordOptions) :
    Outcome (LogicVector × List Char) :=
  match Reader.header text with
  | .error error rest => Outcome.recordFailed error rest
  | .ok (width, descriptor) rest =>
      if descriptor.kind ≠ vector.kind then
        Outcome.recordFailed (.kindMismatch vector.kind descriptor.kind) rest
      else if width ≠ vector.width then
        if options.strictMerge then
          Outcome.recordFailed (.widthMismatch vector.width width) rest
        else
          let skipped := [Event.recordSkipped width vector.width]
          match Reader.planes width descriptor rest with
          | .error error rest => { result := .error (.record error rest), log := skipped }
          | .ok _ rest => { result := .ok (vector, rest), log := skipped }
      else
        match Reader.planes width descriptor rest with
        | .error error rest => Outcome.recordFailed error rest
        | .ok run rest =>
            let added := (slicesOfRun descriptor.kind (wordCount width) run).toArray
            let merged := if descriptor.ownsStorage then vector.addCoverage added else vector
            { result := .ok (merged, rest), log := [.recordMerged width descriptor.kind] }

end LogicVector
end FourState
