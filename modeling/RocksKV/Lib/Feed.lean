import Mathlib
/-!
# Feeds

A reader takes the values of a feed one after another. `latest feed seen` is the value it has seen last when it has
taken them all, if `seen` is the last one now. `offer` puts a value into a bounded queue, or drops it if that is full;
nothing is lost to the reader in the end as long as another value is still behind it (`latest_offer`).
-/

namespace Lib

variable {α : Type}

def latest : List α → Option α → Option α
  | [], seen => seen
  | x :: feed, _ => latest feed (some x)

@[simp] theorem latest_nil (seen : Option α) : latest [] seen = seen := rfl

@[simp] theorem latest_cons (x : α) (feed : List α) (seen : Option α) : latest (x :: feed) seen = latest feed (some x) := rfl

theorem latest_append (feed rest : List α) (seen : Option α) :
    latest (feed ++ rest) seen = latest rest (latest feed seen) := by
  induction feed generalizing seen with
  | nil => rfl
  | cons x feed ih => exact ih (some x)

/-- What was seen before does not matter once there is something to take. -/
theorem latest_of_ne_nil {feed : List α} (h : feed ≠ []) (seen seen' : Option α) : latest feed seen = latest feed seen' := by
  cases feed with
  | nil => exact absurd rfl h
  | cons x feed => rfl

/-- A send that does not block. -/
def offer (cap : Nat) (queue : List α) (x : α) : List α := if queue.length < cap then queue ++ [x] else queue

theorem latest_offer {cap : Nat} {queue rest : List α} (h : queue.length < cap ∨ rest ≠ []) (x : α) (seen : Option α) :
    latest (offer cap queue x ++ rest) seen = latest (queue ++ x :: rest) seen := by
  unfold offer
  split_ifs with hroom
  · rw [List.append_assoc]
    rfl
  · have hrest : rest ≠ [] := h.resolve_left hroom
    rw [latest_append, latest_append, latest_cons]
    exact latest_of_ne_nil hrest _ _

end Lib
