import FleetConsole.Proofs.Json.Reader
import FleetConsole.Session.Program
import Mathlib.Tactic.SplitIfs

namespace FleetConsole

/-- A configuration for which no limit was given. -/
def Config.withoutLimit (c : Config) : Config := { c with rateLimitKb := none }

namespace CommandLine

def limitOption : String := "rate-limit-kb"

/-- Arguments without the option for the limit. Its value may stand in an argument of its own,
which is then skipped. -/
def leaveOutFrom (skip : Bool) : List String → List String
  | [] => []
  | arg :: rest =>
    if skip then leaveOutFrom false rest
    else match look arg with
      | .long name value =>
        if name=limitOption then leaveOutFrom value.isNone rest
        else arg :: leaveOutFrom false rest
      | _ => arg :: leaveOutFrom false rest

def withoutLimit (args : List String) : List String := leaveOutFrom false args

theorem store_withoutLimit {c c' : Config} {value : String} {key : Key}
    (other : key≠.rateLimitKb) (h : store c value key=.ok c') :
    store c.withoutLimit value key=.ok c'.withoutLimit := by
  have number (set : Config → UInt64 → Config)
      (hs : ∀ n,set c.withoutLimit n=(set c n).withoutLimit)
      (hn : CommandLine.number value (set c)=.ok c') :
      CommandLine.number value (set c.withoutLimit)=.ok c'.withoutLimit := by
    unfold CommandLine.number at hn ⊢
    split at hn
    · cases hn
      exact congrArg Except.ok (hs _)
    · cases hn
  cases key with
  | rateLimitKb => exact absurd rfl other
  | maxLines => exact number (fun c n => { c with maxLines := n }) (fun _ => rfl) h
  | upkeepMs => exact number (fun c n => { c with upkeepMillis := n }) (fun _ => rfl) h
  | reconcileMs =>
    exact number (fun c n => { c with reconcileMillis := n }) (fun _ => rfl) h
  | warnAfterMs =>
    exact number (fun c n => { c with warnAfterMillis := n }) (fun _ => rfl) h
  | staleAfterMs =>
    exact number (fun c n => { c with staleAfterMillis := n }) (fun _ => rfl) h
  | logLevel =>
    cases h
    rfl
  | settings =>
    unfold store at h ⊢
    split_ifs at h ⊢
    cases h
    rfl

theorem withoutLimit_store_limit {c c' : Config} {value : String}
    (h : store c value .rateLimitKb=.ok c') : c'.withoutLimit=c.withoutLimit := by
  unfold store at h
  dsimp only at h
  split at h
  · cases h
    rfl
  · cases h

namespace State

/-- What has been read apart from the limit. -/
def withoutLimit (s : State) : State :=
  { s with config := s.config.withoutLimit, seen := s.seen.filter (fun key => key != .rateLimitKb) }

variable {s s' t : State} {key : Key} {value : String}

theorem assign_ok (h : s.assign key value=.ok s') :
    s.seen.contains key=false ∧ ∃ config,store s.config value key=.ok config ∧
      s'={ s with config := config, seen := key :: s.seen } := by
  unfold assign at h
  split_ifs at h with seen
  refine ⟨Bool.eq_false_iff.mpr seen,?_⟩
  cases hs : store s.config value key with
  | error fault =>
    rw [hs] at h
    cases h
  | ok config =>
    rw [hs] at h
    exact ⟨config,rfl,(Except.ok.inj h).symm⟩

theorem assign_withoutLimit (other : key≠.rateLimitKb) (h : s.assign key value=.ok s') :
    s.withoutLimit.assign key value=.ok s'.withoutLimit := by
  obtain ⟨unseen,config,stored,rfl⟩ := assign_ok h
  have unseen' : s.withoutLimit.seen.contains key=false := by
    rw [← Bool.not_eq_true,List.contains_iff_mem] at unseen ⊢
    exact fun seen => unseen (List.mem_filter.mp seen).1
  have stored' : store s.withoutLimit.config value key=.ok config.withoutLimit :=
    store_withoutLimit other stored
  have kept : (key :: s.seen).filter (fun key => key != .rateLimitKb)=
      key :: s.seen.filter (fun key => key != .rateLimitKb) :=
    List.filter_cons_of_pos (bne_iff_ne.mpr other)
  rw [assign,unseen',if_neg Bool.false_ne_true,stored']
  simp only [withoutLimit,Except.map,kept]

theorem withoutLimit_assign_limit (h : s.assign .rateLimitKb value=.ok s') :
    s'.withoutLimit=s.withoutLimit := by
  obtain ⟨_,config,stored,rfl⟩ := assign_ok h
  simp only [withoutLimit,withoutLimit_store_limit stored]
  rfl

theorem turnOn_ok {switch : Switch} (h : s.turnOn switch=.ok s') :
    switch=.jsonOutput ∧ s.sawJsonOutput=false ∧
      s'={ s with config := { s.config with jsonOutput := true }, sawJsonOutput := true } := by
  cases switch with
  | help => cases h
  | jsonOutput =>
    unfold turnOn at h
    dsimp only at h
    split_ifs at h with seen
    exact ⟨rfl,Bool.eq_false_iff.mpr seen,(Except.ok.inj h).symm⟩

theorem turnOn_withoutLimit {switch : Switch} (h : s.turnOn switch=.ok s') :
    s.withoutLimit.turnOn switch=.ok s'.withoutLimit := by
  obtain ⟨rfl,unseen,rfl⟩ := turnOn_ok h
  exact if_neg (Bool.eq_false_iff.mp unseen)

theorem pending_settle (h : s.settle=.ok s') : s'.pending=none := by
  unfold settle at h
  split at h
  next none =>
    cases h
    exact none
  next => cases h
  next =>
    obtain ⟨_,_,_,rfl⟩ := assign_ok h
    rfl

theorem settle_of_none (h : s.pending=none) : s.settle=.ok s := by
  rw [settle,h]

theorem settle_withoutLimit (other : ∀ value,s.pending≠some ⟨.rateLimitKb,value⟩)
    (h : s.settle=.ok s') : s.withoutLimit.settle=.ok s'.withoutLimit := by
  unfold settle at h
  split at h
  next none =>
    cases h
    exact settle_of_none none
  next => cases h
  next key value pending =>
    have named : key≠.rateLimitKb := by
      rintro rfl
      exact other _ pending
    have unsettled : s.withoutLimit.pending=some ⟨key,some value⟩ := pending
    rw [settle,unsettled]
    exact assign_withoutLimit named h

/-- The second line leaves the limit out. It may be an option behind, since leaving out an option
also puts off settling the one before. -/
inductive Follows : Bool → State → State → Prop
  | settled {s t : State} (done : ∀ key,s.pending≠some ⟨key,none⟩)
      (settles : ∀ s',s.settle=.ok s' → t.settle=.ok s'.withoutLimit) : Follows false s t
  | waiting {s : State} {key : Key} (pending : s.pending=some ⟨key,none⟩)
      (other : key≠.rateLimitKb) : Follows false s s.withoutLimit
  | skipping {s t : State} (pending : s.pending=some ⟨.rateLimitKb,none⟩)
      (settles : t.settle=.ok { s with pending := none }.withoutLimit) : Follows true s t

variable {skip : Bool} {name : String} {inline : Option String}

theorem follows_of_idle (h : s.pending=none) : Follows false s s.withoutLimit := by
  apply Follows.settled
  · intro key pending
    cases h.symm.trans pending
  · intro s' hs
    cases (settle_of_none h).symm.trans hs
    exact settle_of_none h

theorem settle_of_waiting (h : s.pending=some ⟨key,none⟩) : s.settle=.error .invalidValue := by
  rw [settle,h]

theorem Follows.settle (h : Follows skip s t) (hs : s.settle=.ok s') :
    skip=false ∧ t.settle=.ok s'.withoutLimit := by
  cases h with
  | settled _ settles => exact ⟨rfl,settles s' hs⟩
  | waiting pending => cases (settle_of_waiting pending).symm.trans hs
  | skipping pending => cases (settle_of_waiting pending).symm.trans hs

theorem pending_assign (h : s.assign key value=.ok s') : s'.pending=s.pending := by
  obtain ⟨_,_,_,rfl⟩ := assign_ok h
  rfl

theorem pending_turnOn {switch : Switch} (h : s.turnOn switch=.ok s') : s'.pending=s.pending := by
  obtain ⟨_,_,rfl⟩ := turnOn_ok h
  rfl

/-- An option is read only after the one before it has been settled. -/
theorem takeLong_ok (h : s.takeLong name inline=.ok s') : ∃ settled,s.settle=.ok settled ∧
    ((∃ key value,Key.all.lookup name=some key ∧ inline=some value ∧
        settled.assign key value=.ok s') ∨
      (∃ key,Key.all.lookup name=some key ∧ inline=none ∧
        s'={ settled with pending := some ⟨key,none⟩ }) ∨
      (∃ switch,Key.all.lookup name=none ∧ Switch.all.lookup name=some switch ∧ inline=none ∧
        settled.turnOn switch=.ok s')) := by
  unfold takeLong at h
  cases hs : s.settle with
  | error fault =>
    rw [hs] at h
    split at h <;> cases h
  | ok settled =>
    rw [hs] at h
    refine ⟨settled,rfl,?_⟩
    split at h
    next key value named => exact .inl ⟨key,value,named,rfl,h⟩
    next key named => exact .inr (.inl ⟨key,named,rfl,(Except.ok.inj h).symm⟩)
    next => cases h
    next switch unnamed named => exact .inr (.inr ⟨switch,unnamed,named,rfl,h⟩)
    next => cases h

theorem name_of_limit (h : Key.all.lookup name=some .rateLimitKb) : name=limitOption := by
  obtain ⟨before,after,split,_⟩ := List.lookup_eq_some_iff.mp h
  have listed : (name,Key.rateLimitKb)∈Key.all := split ▸ List.mem_append_right _ List.mem_cons_self
  simpa [Key.all,limitOption] using listed

theorem takeLong_withoutLimit (other : name≠limitOption) (follows : Follows false s t)
    (h : s.takeLong name inline=.ok s') :
    ∃ t',t.takeLong name inline=.ok t' ∧ Follows false s' t' := by
  obtain ⟨settled,settles,taken⟩ := takeLong_ok h
  have settles' := (follows.settle settles).2
  have idle : settled.pending=none := pending_settle settles
  have ne {key : Key} (named : Key.all.lookup name=some key) : key≠.rateLimitKb := by
    rintro rfl
    exact other (name_of_limit named)
  unfold takeLong
  rcases taken with ⟨key,value,named,rfl,assigned⟩ | ⟨key,named,rfl,rfl⟩ |
    ⟨switch,unnamed,named,rfl,on⟩
  · refine ⟨s'.withoutLimit,?_,follows_of_idle ((pending_assign assigned).trans idle)⟩
    rw [named,settles']
    exact assign_withoutLimit (ne named) assigned
  · refine ⟨_,?_,.waiting rfl (ne named)⟩
    rw [named,settles']
    rfl
  · refine ⟨s'.withoutLimit,?_,follows_of_idle ((pending_turnOn on).trans idle)⟩
    rw [unnamed,named,settles']
    exact turnOn_withoutLimit on

theorem takeLong_limit (follows : Follows false s t)
    (h : s.takeLong limitOption inline=.ok s') : Follows inline.isNone s' t := by
  obtain ⟨settled,settles,taken⟩ := takeLong_ok h
  have settles' := (follows.settle settles).2
  have idle : settled.pending=none := pending_settle settles
  have limit : Key.all.lookup limitOption=some .rateLimitKb := by decide
  rcases taken with ⟨key,value,named,rfl,assigned⟩ | ⟨key,named,rfl,rfl⟩ | ⟨_,unnamed,_⟩
  · cases limit.symm.trans named
    have idle' : s'.pending=none := (pending_assign assigned).trans idle
    apply Follows.settled
    · intro key pending
      cases idle'.symm.trans pending
    · intro s'' hs
      cases (settle_of_none idle').symm.trans hs
      rw [settles',withoutLimit_assign_limit assigned]
  · cases limit.symm.trans named
    apply Follows.skipping
    · rfl
    · rw [settles',← idle]
  · cases limit.symm.trans unnamed

/-- The only letter asks for help, and then nothing is run. -/
theorem takeShort_ne_ok {letters : List Char} : s.takeShort letters≠.ok s' := by
  unfold takeShort
  split_ifs
  · cases s.settle <;> rintro ⟨⟩
  · rintro ⟨⟩

theorem takePlain_ok {arg : String} (h : s.takePlain arg=.ok s') :
    ∃ key,s.pending=some ⟨key,none⟩ ∧ s'={ s with pending := some ⟨key,some arg⟩ } := by
  unfold takePlain at h
  split at h
  next key pending => exact ⟨key,pending,(Except.ok.inj h).symm⟩
  next => cases h

theorem takePlain_withoutLimit {arg : String} (follows : Follows false s t)
    (h : s.takePlain arg=.ok s') : ∃ t',t.takePlain arg=.ok t' ∧ Follows false s' t' := by
  obtain ⟨key,pending,rfl⟩ := takePlain_ok h
  cases follows with
  | settled done => exact absurd pending (done key)
  | waiting pending' other =>
    cases pending.symm.trans pending'
    have unsettled : s.withoutLimit.pending=some ⟨key,none⟩ := pending
    refine ⟨{ s with pending := some ⟨key,some arg⟩ }.withoutLimit,?_,.settled ?_ ?_⟩
    · rw [takePlain,unsettled]
      rfl
    · rintro _ ⟨⟩
    · intro s' hs
      apply settle_withoutLimit _ hs
      rintro _ ⟨⟩
      exact other rfl

theorem takePlain_skipping {arg : String} (follows : Follows true s t)
    (h : s.takePlain arg=.ok s') : Follows false s' t := by
  obtain ⟨key,pending,rfl⟩ := takePlain_ok h
  cases follows with
  | skipping pending' settles =>
    cases pending.symm.trans pending'
    apply Follows.settled
    · rintro _ ⟨⟩
    · intro s' hs
      rw [settles,← withoutLimit_assign_limit hs]

end State

theorem leaveOut_other {name : String} {arg : String} {inline : Option String}
    (rest : List String) (looks : look arg=.long name inline) (other : name≠limitOption) :
    leaveOutFrom false (arg :: rest)=arg :: leaveOutFrom false rest := by
  rw [leaveOutFrom,if_neg Bool.false_ne_true,looks]
  exact if_neg other

theorem leaveOut_limit {arg : String} {inline : Option String} (rest : List String)
    (looks : look arg=.long limitOption inline) :
    leaveOutFrom false (arg :: rest)=leaveOutFrom inline.isNone rest := by
  rw [leaveOutFrom,if_neg Bool.false_ne_true,looks]
  exact if_pos rfl

theorem interpret_leaveOut {skip : Bool} {s s' t : State} (args : List String)
    (follows : State.Follows skip s t) (h : interpret s args=.ok s') :
    interpret t (leaveOutFrom skip args)=.ok s'.withoutLimit := by
  induction args generalizing skip s t with
  | nil => exact (follows.settle h).2
  | cons arg rest ih =>
    rw [interpret] at h
    cases looks : look arg with
    | separator =>
      rw [looks] at h
      dsimp only at h
      split_ifs at h with last
      obtain ⟨rfl,settles⟩ := follows.settle h
      rw [last,leaveOutFrom,if_neg Bool.false_ne_true,looks,leaveOutFrom,interpret,looks]
      exact settles
    | plain =>
      rw [looks] at h
      obtain ⟨taken,takes,reads⟩ := Json.bind_ok h
      cases skip with
      | true => exact ih (State.takePlain_skipping follows takes) reads
      | false =>
        obtain ⟨t',takes',follows'⟩ := State.takePlain_withoutLimit follows takes
        rw [leaveOutFrom,if_neg Bool.false_ne_true,looks,interpret,looks]
        dsimp only
        rw [takes']
        exact ih follows' reads
    | short letters =>
      rw [looks] at h
      obtain ⟨_,takes,_⟩ := Json.bind_ok h
      cases State.takeShort_ne_ok takes
    | long name inline =>
      rw [looks] at h
      obtain ⟨taken,takes,reads⟩ := Json.bind_ok h
      obtain ⟨settled,settles,_⟩ := State.takeLong_ok takes
      obtain ⟨rfl,_⟩ := follows.settle settles
      by_cases limit : name=limitOption
      · subst limit
        rw [leaveOut_limit rest looks]
        exact ih (State.takeLong_limit follows takes) reads
      · obtain ⟨t',takes',follows'⟩ := State.takeLong_withoutLimit limit follows takes
        rw [leaveOut_other rest looks limit,interpret,looks]
        dsimp only
        rw [takes']
        exact ih follows' reads

theorem parse_withoutLimit {args : List String} {config : Config} (h : parse args=.ok config) :
    parse (withoutLimit args)=.ok config.withoutLimit := by
  unfold parse at h ⊢
  cases hs : interpret State.start args with
  | error fault =>
    rw [hs] at h
    cases h
  | ok s =>
    rw [hs] at h
    cases h
    have start : State.Follows false State.start State.start := State.follows_of_idle rfl
    rw [withoutLimit,interpret_leaveOut args start hs]
    rfl

end CommandLine

theorem Program.configure_withoutLimit {args : List String} {config : Config}
    (h : configure args=.ok config) :
    configure (CommandLine.withoutLimit args)=.ok config.withoutLimit := by
  unfold configure at h ⊢
  cases parsed : CommandLine.parse args with
  | error fault =>
    rw [parsed] at h
    cases h
  | ok config' =>
    rw [parsed] at h
    have same : config'.withoutLimit.validate=config'.validate := rfl
    rw [CommandLine.parse_withoutLimit parsed]
    dsimp only at h ⊢
    rw [same]
    split at h
    next => cases h
    next =>
      cases h
      rfl

end FleetConsole
