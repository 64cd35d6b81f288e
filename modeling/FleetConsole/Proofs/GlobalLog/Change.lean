import FleetConsole.GlobalLog
import FleetConsole.Proofs.LineBuffer.Restyle

namespace FleetConsole.GlobalLog

/-- What happens to the log. Texts of the console itself have no writer. -/
inductive Change where
  | write (writer : Option CommandId) (text : List Char)
  | maxLines (maxLines : Nat)
  | clear

variable {σ : Type}

def apply (paint : Option CommandId → List Char → List (Run σ)) (g : GlobalLog σ) :
    Change → GlobalLog σ
  | .write none text => g.appendNotice (paint none text)
  | .write (some source) text => g.appendOutput source (paint (some source) text)
  | .maxLines maxLines => g.setMaxLines maxLines
  | .clear => g.clear

/-- The lines after a text: it goes on where its writer has the open line, and below otherwise. -/
def extended (g : GlobalLog σ) (writer : Option CommandId) (runs : List (Run σ)) : LineBuffer σ :=
  ((if writer≠none ∧ g.writer=writer then g.buffer else g.buffer.endOpenLine.2).append runs).2

theorem apply_write (paint : Option CommandId → List Char → List (Run σ)) (g : GlobalLog σ)
    (writer : Option CommandId) (text : List Char) :
    g.apply paint (.write writer text)=
      ⟨g.extended writer (paint writer text),
        if (g.extended writer (paint writer text)).hasOpenLine then writer else none⟩ := by
  cases writer with
  | none =>
    have ended : g.extended none (paint none text)=
        (g.buffer.endOpenLine.2.append (paint none text)).2 := by
      rw [extended,if_neg (fun h => h.1 rfl)]
    rw [ended,ite_self]
    rfl
  | some source =>
    have ended : g.extended (some source) (paint (some source) text)=
        ((if g.writer=some source then g.buffer else g.buffer.endOpenLine.2).append
          (paint (some source) text)).2 := by
      simp only [extended,ne_eq,reduceCtorEq,not_false_eq_true,true_and]
    rw [ended]
    rfl

variable {τ : Type}

def restyle (f : σ → τ) (g : GlobalLog σ) : GlobalLog τ := ⟨g.buffer.restyle f,g.writer⟩

theorem restyle_apply {f : σ → τ} {paint : Option CommandId → List Char → List (Run σ)}
    {paint' : Option CommandId → List Char → List (Run τ)}
    (h : ∀ writer text,(paint writer text).map (Run.restyle f)=paint' writer text)
    (g : GlobalLog σ) (change : Change) :
    (g.apply paint change).restyle f=(g.restyle f).apply paint' change := by
  cases change with
  | write writer text =>
    have extended : (g.extended writer (paint writer text)).restyle f=
        (g.restyle f).extended writer (paint' writer text) := by
      unfold extended
      rw [LineBuffer.restyle_append,h]
      split
      next own => rw [if_pos (show writer≠none ∧ (g.restyle f).writer=writer from own)]; rfl
      next other =>
        rw [if_neg (show ¬(writer≠none ∧ (g.restyle f).writer=writer) from other),
          LineBuffer.restyle_endOpenLine]
        rfl
    rw [apply_write,apply_write,← extended,LineBuffer.hasOpenLine_restyle]
    rfl
  | maxLines maxLines =>
    have kept := LineBuffer.restyle_setMaxLines f g.buffer maxLines
    exact congrArg (fun buffer => GlobalLog.mk buffer g.writer) kept
  | clear => rfl

theorem restyle_foldl_apply {f : σ → τ} {paint : Option CommandId → List Char → List (Run σ)}
    {paint' : Option CommandId → List Char → List (Run τ)}
    (h : ∀ writer text,(paint writer text).map (Run.restyle f)=paint' writer text)
    (g : GlobalLog σ) (changes : List Change) :
    (changes.foldl (apply paint) g).restyle f=changes.foldl (apply paint') (g.restyle f) := by
  induction changes generalizing g with
  | nil => rfl
  | cons change rest ih => rw [List.foldl_cons,List.foldl_cons,ih,restyle_apply h]

end FleetConsole.GlobalLog
