import FleetConsole.Proofs.LineBuffer.Sliding
import FleetConsole.Proofs.Router.GlobalHistory

namespace FleetConsole

namespace GlobalLog

variable {σ : Type}

/-- A change of the log as changes of its lines. -/
def edits (paint : Option CommandId → List Char → List (Run σ)) (g : GlobalLog σ) :
    Change → List (LineBuffer.Change σ)
  | .write writer text =>
    (if writer≠none ∧ g.writer=writer then [] else [.endOpenLine])++[.append (paint writer text)]
  | .maxLines maxLines => [.setMaxLines maxLines]
  | .clear => [.clear]

def allEdits (paint : Option CommandId → List Char → List (Run σ)) (g : GlobalLog σ) :
    List Change → List (LineBuffer.Change σ)
  | [] => []
  | change :: rest => g.edits paint change++(g.apply paint change).allEdits paint rest

theorem buffer_apply (paint : Option CommandId → List Char → List (Run σ)) (g : GlobalLog σ)
    (change : Change) : (g.apply paint change).buffer=g.buffer.changeAll (g.edits paint change) := by
  cases change with
  | write writer text =>
    rw [apply_write,edits,extended]
    split <;> rfl
  | _ => rfl

theorem buffer_foldl_apply (paint : Option CommandId → List Char → List (Run σ)) (g : GlobalLog σ)
    (changes : List Change) :
    (changes.foldl (apply paint) g).buffer=g.buffer.changeAll (g.allEdits paint changes) := by
  induction changes generalizing g with
  | nil => rfl
  | cons change rest ih =>
    rw [List.foldl_cons,ih,buffer_apply,allEdits,LineBuffer.changeAll,LineBuffer.changeAll,
      ← List.foldl_append]
    rfl

theorem allEdits_append (paint : Option CommandId → List Char → List (Run σ)) (g : GlobalLog σ)
    (a b : List Change) :
    g.allEdits paint (a++b)=g.allEdits paint a++(a.foldl (apply paint) g).allEdits paint b := by
  induction a generalizing g with
  | nil => rfl
  | cons change rest ih =>
    rw [List.cons_append,allEdits,allEdits,ih,List.append_assoc]
    rfl

end GlobalLog

namespace Router

/-- All lines that a run ever put into the log of all commands. -/
def fullLog (config : RouterConfig) (ops : List Op) : Archive Style :=
  (Archive.new config.maxLines).changeAll
    ((GlobalLog.new config.maxLines).allEdits plainPaint (history ((new config).past ops)))

theorem shown_fullLog (config : RouterConfig) (ops : List Op) :
    (fullLog config ops).shown=((new config).run ops).2.global.buffer := by
  rw [global_run,GlobalLog.buffer_foldl_apply,fullLog,Archive.shown_changeAll]
  rfl

theorem sound_fullLog (config : RouterConfig) (ops : List Op) : (fullLog config ops).Sound :=
  Archive.sound_changeAll _ _

/-- A longer run changes the log further. -/
theorem fullLog_append (config : RouterConfig) (ops later : List Op) :
    ∃ changes,fullLog config (ops++later)=(fullLog config ops).changeAll changes := by
  have h : history ((new config).past (ops++later))=
      history ((new config).past ops)++history (((new config).run ops).2.past later) := by
    rw [history,past_append,List.reverse_append,List.flatMap_append]
    rfl
  rw [fullLog,h,GlobalLog.allEdits_append,Archive.changeAll,List.foldl_append]
  exact ⟨_,rfl⟩

end Router

end FleetConsole
