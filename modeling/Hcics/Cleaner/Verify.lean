import Hcics.Cleaner.Procedures
import Hcics.Lib.Clock
import Mathlib.Data.List.Chain

/-!
# Verified clear

`hcics_cleaner_verify_clear` waits for 1800 ms of polls that all find a fresh frame of mode 2 which is
no stain. That is not yet a frame that reports no blob: the stain test also rejects a blob that is
too wide, outside of the picture or not marked valid, and the loop takes such a frame, a `Misread`
one, for clear. Whether it was one is all that is left open: without it the polls of the window saw a
blob narrower than the limit, in at least two frames.
-/

namespace Hcics.Gimbal

open Cleaner Polling

/-- The polls come in order, and the clock does not wrap between two of them unseen. -/
def InOrder (polls : List Look) : Prop :=
  polls.IsChain fun l k => l.now ≤ k.now ∧ k.now < l.now + 2 ^ 31

/-- A frame with a blob of the least width that is not valid, outside of the picture or too wide. -/
def Misread (target : CleanerTarget) : Prop :=
  minTargetW ≤ target.width ∧
    (target.valid = false ∨ target.x = 0 ∨ target.y = 0 ∨ target.x > 640 ∨ target.y > 480 ∨
      target.width > maxTargetW)

instance (target : CleanerTarget) : Decidable (Misread target) :=
  inferInstanceAs (Decidable (_ ∧ _))

/-- A poll that `hcics_cleaner_verify_clear` takes for clear. -/
def TakenClear (l : Look) : Prop :=
  l.guard.forcesRetract l.tick true = false ∧ cleanFrameIsFresh l.camera l.tick = true ∧
    targetIsStain l.camera l.tick = false

/-- An open window holds the polls since it was opened, all of them taken for clear. -/
def Open (polls : List Look) (clear : ClearWindow) : Prop :=
  clear.active = true → ∃ first rest, Streak TakenClear polls (first :: rest) ∧
    clear.start = first.tick

theorem Open.snoc {polls : List Look} {clear : ClearWindow} {l : Look} (h : Open polls clear)
    (hl : TakenClear l) : ∃ first rest, Streak TakenClear (polls ++ [l]) (first :: rest) ∧
      (if clear.active then clear else ⟨l.tick, true⟩).start = first.tick := by
  cases ha : clear.active with
  | false => exact ⟨l, [], (Streak.nil TakenClear polls).snoc hl, rfl⟩
  | true =>
    obtain ⟨first, rest, hstreak, hstart⟩ := h ha
    exact ⟨first, rest ++ [l], hstreak.snoc hl, hstart⟩

theorem InOrder.suffix {polls span : List Look} (h : InOrder polls) (hs : span <:+ polls) :
    InOrder span :=
  List.IsChain.suffix h hs

end Hcics.Gimbal
