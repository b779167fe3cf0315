import CellSketch.Error
import CellSketch.Notice

/-!
# Report — a result together with what was noticed on the way

Work that can fail notes what is worth telling, in order.  A failure ends the work and keeps the
notices that came before it.
-/

namespace CellSketch

structure Report (α : Type) where
  notices : List Notice
  result : Except Error α

namespace Report

variable {α β : Type}

/-- A result without notices. -/
def ofResult (r : Except Error α) : Report α := ⟨[], r⟩

/-- Nothing but notices. -/
def tell (notices : List Notice) : Report Unit := ⟨notices, .ok ()⟩

/-- The report with earlier notices in front of its own. -/
def after (notices : List Notice) (r : Report α) : Report α := ⟨notices ++ r.notices, r.result⟩

/-- Goes on with the result, if there is one. -/
def bind (r : Report α) (next : α → Report β) : Report β :=
  match r.result with
  | .ok a => (next a).after r.notices
  | .error e => ⟨r.notices, .error e⟩

instance : Monad Report where
  pure a := ofResult (.ok a)
  bind := Report.bind

instance : MonadLift (Except Error) Report := ⟨ofResult⟩

theorem bind_def (r : Report α) (next : α → Report β) : r >>= next = r.bind next := rfl

@[simp] theorem ofResult_ok_bind (a : α) (next : α → Report β) :
    (ofResult (.ok a)).bind next = next a := rfl

/-- The result of work in two parts, without the notices. -/
theorem bind_result (r : Report α) (next : α → Report β) :
    (r >>= next).result = r.result >>= fun a => (next a).result := by
  rw [bind_def, bind]
  cases r.result <;> rfl

theorem exists_of_result_bind {r : Report α} {next : α → Report β} {b : β}
    (h : (r >>= next).result = .ok b) : ∃ a, r.result = .ok a ∧ (next a).result = .ok b := by
  rw [bind_def, bind] at h
  split at h
  · exact ⟨_, by assumption, h⟩
  · cases h

theorem result_bind {r : Report α} {a : α} (h : r.result = .ok a) (next : α → Report β) :
    (r >>= next).result = (next a).result := by
  rw [bind_def, bind, h]
  rfl

end Report

end CellSketch
