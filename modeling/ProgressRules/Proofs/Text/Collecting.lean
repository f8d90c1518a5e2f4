import ProgressRules.Proofs.Text.Reading

/-! One pass of a reader over a text that is given as a front and the rest. -/

namespace ProgressRules.Text

variable {α : Type} {reader : Reader α}

theorem collectFrom_skip (front rest : Text) :
    collectFrom reader front.length (front ++ rest) = collectFrom reader 0 rest := by
  induction front with
  | nil => rfl
  | cons c front ih => exact ih

theorem collect_item {front rest : Text} {item : α} (nonempty : front ≠ [])
    (found : reader (front ++ rest) = some (item, rest)) :
    collect reader (front ++ rest) = item :: collect reader rest := by
  obtain ⟨c, front, rfl⟩ := List.exists_cons_of_ne_nil nonempty
  have size : (front ++ rest).length - rest.length = front.length := by simp
  rw [List.cons_append] at found ⊢
  simp only [collect, collectFrom, found, size, collectFrom_skip]

theorem collect_cons {c : Char} {rest : Text} (unread : reader (c :: rest) = none) :
    collect reader (c :: rest) = collect reader rest := by
  simp only [collect, collectFrom, unread]

/-- Nothing is collected from a front with none of whose characters an item begins. -/
theorem collect_append {front rest : Text}
    (unread : ∀ c ∈ front, ∀ rest, reader (c :: rest) = none) :
    collect reader (front ++ rest) = collect reader rest := by
  induction front with
  | nil => rfl
  | cons c front ih =>
    obtain ⟨first, others⟩ := List.forall_mem_cons.1 unread
    rw [List.cons_append, collect_cons (first _), ih others]

end ProgressRules.Text
