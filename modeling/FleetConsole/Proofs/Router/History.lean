import FleetConsole.Router.Run
import Mathlib.Data.List.Induction

namespace FleetConsole.Router

/-- An operation together with what it answered. -/
abbrev Answered := Op × Reply

/-- What a run did, the last operation first. -/
def past (r : Router) (ops : List Op) : List Answered := (ops.zip (r.run ops).1).reverse

theorem run_append (r : Router) (a b : List Op) :
    r.run (a++b)=((r.run a).1++((r.run a).2.run b).1,((r.run a).2.run b).2) := by
  induction a generalizing r with
  | nil => rfl
  | cons op ops ih =>
    simp only [List.cons_append,run]
    rw [ih]

theorem length_run (r : Router) (ops : List Op) : (r.run ops).1.length=ops.length := by
  induction ops generalizing r with
  | nil => rfl
  | cons op ops ih => simp [run,ih]

theorem run_concat (r : Router) (ops : List Op) (op : Op) :
    (r.run (ops++[op])).2=((r.run ops).2.step op).2 := by
  rw [run_append]
  rfl

theorem past_append (r : Router) (a b : List Op) :
    r.past (a++b)=(r.run a).2.past b++r.past a := by
  unfold past
  rw [run_append,List.zip_append (length_run r a).symm,List.reverse_append]

theorem past_concat (r : Router) (ops : List Op) (op : Op) :
    r.past (ops++[op])=(op,((r.run ops).2.step op).1) :: r.past ops := by
  rw [past_append]
  rfl

theorem past_cons (r : Router) (op : Op) (ops : List Op) :
    r.past (op :: ops)=(r.step op).2.past ops++[(op,(r.step op).1)] :=
  past_append r [op] ops

/-- What holds at the start and survives every step holds after every run. -/
theorem run_induction {r : Router} {motive : List Answered → Router → Prop}
    (start : motive [] r)
    (step : ∀ past r op,motive past r → motive ((op,(r.step op).1) :: past) (r.step op).2)
    (ops : List Op) : motive (r.past ops) (r.run ops).2 := by
  induction ops using List.reverseRecOn with
  | nil => exact start
  | append_singleton ops op ih =>
    rw [past_concat,run_concat]
    exact step _ _ op ih

def camera : CommandInfo := ⟨⟨"deck","camera"⟩,"record",.running⟩

def radar : CommandInfo := ⟨⟨"deck","radar"⟩,"sweep",.running⟩

end FleetConsole.Router
