import FleetConsole.Json.Tagged
import FleetConsole.Proofs.Json.Float
import FleetConsole.Proofs.Json.ReadBack
import Mathlib.Data.List.Forall2

namespace FleetConsole.Json

/-- A number with a fraction is read as one, but only close by. -/
theorem readsAs_float {x : Binary64} (finite : x.isFinite=true) (s : Spacing) (d depth : Nat) :
    ∃ y,ReadsAs s d depth (.float x) (.float y) := by
  obtain ⟨y,hy⟩ := readNumber_writeFloat finite
  refine ⟨y,fun rest hr => ?_⟩
  obtain ⟨c,tail,head,start⟩ := head_writeFloat finite
  have read := hy rest hr
  rw [head,List.cons_append] at read
  show readValue d (writeFloat x++rest)=_
  rw [head,List.cons_append,readValue_number start,read]

section

variable {key tag : String} {names : List String} {s : Spacing} {depth : Nat}

theorem takes_tag (known : names.contains tag=true) (done : List (String × Json)) :
    Takes (readTaggedMember key names) s depth (none,done) (key,.str tag) (some tag,done) := by
  intro rest _
  show readTaggedMember key names (none,done) key (':' :: (s.colon++writeQuoted tag rest))=_
  rw [readTaggedMember,if_pos rfl,writeQuoted_eq,readColon_spaced s (by decide)]
  show (readTag names ('"' :: quotedTail tag rest)).bind _=_
  rw [readTag,if_pos rfl,readQuoted_quotedTail]
  dsimp only
  rw [if_pos known]
  rfl

theorem takes_content {m : String × Json} {w : Json} (other : m.1≠key)
    (h : ReadsAs s (maxDepth-1) depth m.2 w) (tag : Option String)
    (done : List (String × Json)) :
    Takes (readTaggedMember key names) s depth (tag,done) m (tag,(m.1,w) :: done) := by
  intro rest hr
  have read := h rest hr
  obtain ⟨c,tail,head,blank,_⟩ := head_of_readValue read
  rw [head] at read ⊢
  rw [readTaggedMember,if_neg other,readColon_spaced s blank]
  show (readValue (maxDepth-1) (c :: tail)).bind _=_
  rw [read]
  rfl

/-- A member behind a tag, and the member it is read as. -/
structure MemberReadsAs (key : String) (s : Spacing) (depth : Nat) (m c : String × Json) :
    Prop where
  other : m.1≠key
  same : m.1=c.1
  value : ReadsAs s (maxDepth-1) depth m.2 c.2

/-- Members behind a tag, and what they are read as. -/
abbrev Content (key : String) (s : Spacing) (depth : Nat) :
    List (String × Json) → List (String × Json) → Prop :=
  List.Forall₂ (MemberReadsAs key s depth)

/-- Whether a member is no tag and its value is read as it was written. -/
def isPlainMember (key : String) (m : String × Json) : Bool :=
  m.1 != key && m.2.fits (maxDepth-1) && m.2.isWhole

theorem isPlainMember_natCast {name : String} (other : (name != key)=true) {n : Nat}
    (h : n<significandBound) : isPlainMember key (name,.int n)=true := by
  have whole : (Json.int n).isWhole=true := by rw [isWhole,isWholeRange_natCast h]
  simp only [isPlainMember,other,fits,whole,Bool.and_self]

theorem memberReadsAs_self {m : String × Json} (h : isPlainMember key m=true) :
    MemberReadsAs key s depth m m := by
  simp only [isPlainMember,Bool.and_eq_true,bne_iff_ne] at h
  obtain ⟨⟨other,fit⟩,whole⟩ := h
  exact ⟨other,rfl,readsBack s fit whole depth⟩

theorem content_self {members : List (String × Json)}
    (h : members.all (isPlainMember key)=true) : Content key s depth members members :=
  List.forall₂_same.mpr (fun m hm => memberReadsAs_self (List.all_eq_true.mp h m hm))

theorem takesAll_content {members content : List (String × Json)}
    (h : Content key s depth members content) (tag : Option String)
    (done : List (String × Json)) :
    TakesAll (readTaggedMember key names) s depth (tag,done) members
      (tag,content.reverse++done) := by
  induction h generalizing done with
  | nil => exact .nil _
  | @cons m c members content first others ih =>
    obtain ⟨other,same,read⟩ := first
    rw [List.reverse_cons,List.append_assoc]
    have taken : Takes (readTaggedMember key names) s depth (tag,done) m
        (tag,(m.1,c.2) :: done) := takes_content other read tag done
    rw [same] at taken
    exact .cons taken (ih (c :: done))

theorem readTagged_compact (known : names.contains tag=true)
    {members content : List (String × Json)} (h : Content key .none 1 members content) :
    readTagged key names (Json.obj ((key,.str tag) :: members)).compact=
      .ok (⟨tag,.obj content⟩,[]) := by
  have first : Takes (readTaggedMember key names) .none 1 (none,[]) (key,.str tag)
      (some tag,[]) := takes_tag known []
  have read := readMembers_spaced 0 first (takesAll_content h (some tag) []) []
  rw [compact,← spaced_none 0,spaced,readTagged]
  simp only [if_true,read,List.append_nil,List.reverse_reverse]

theorem readByTag_compact {α : Type} {decode? : Tagged → Option α} {a : α}
    (known : names.contains tag=true) {members content : List (String × Json)}
    (h : Content key .none 1 members content)
    (decoded : decode? ⟨tag,.obj content⟩=some a) :
    readByTag key names decode? (Json.obj ((key,.str tag) :: members)).compact=.ok a := by
  have front : skipSpace (Json.obj ((key,.str tag) :: members)).compact=
      (Json.obj ((key,.str tag) :: members)).compact := by
    rw [compact,write]
    exact skipSpace_cons (by decide) _
  rw [readByTag,front,readTagged_compact known h]
  simp only [decoded]
  rfl

end

/-- What a tag's content holds, with or without names. -/
def held : Json → List Json
  | .obj members => members.map Prod.snd
  | .arr items => items
  | _ => []

section

variable {key : String} {names : List String} {text rest : List Char}

theorem readTaggedMember_ok {state state' : Option String × List (String × Json)}
    {name : String} (h : readTaggedMember key names state name text=.ok (state',rest)) :
    state'.2=state.2 ∨
      ∃ v text',readValue (maxDepth-1) text'=.ok (v,rest) ∧ state'.2=(name,v) :: state.2 := by
  unfold readTaggedMember at h
  split_ifs at h with own second
  · obtain ⟨_,_,h⟩ := bind_ok h
    obtain ⟨_,_,h⟩ := bind_ok h
    cases h
    exact .inl rfl
  · obtain ⟨text',_,h⟩ := bind_ok h
    obtain ⟨⟨v,_⟩,hv,h⟩ := bind_ok h
    cases h
    exact .inr ⟨v,text',hv,rfl⟩

theorem readTaggedItem_ok {state state' : Option String × List Json}
    (h : readTaggedItem names state text=.ok (state',rest)) :
    state'.2=state.2 ∨
      ∃ v text',readValue (maxDepth-1) text'=.ok (v,rest) ∧ state'.2=v :: state.2 := by
  unfold readTaggedItem at h
  split_ifs at h with tagged
  · obtain ⟨⟨v,_⟩,hv,h⟩ := bind_ok h
    cases h
    exact .inr ⟨v,text,hv,rfl⟩
  · obtain ⟨_,_,h⟩ := bind_ok h
    cases h
    exact .inl rfl

theorem isBounded_of_readTagged {tagged : Tagged}
    (h : readTagged key names text=.ok (tagged,rest)) :
    ∀ v∈tagged.content.held,v.isBounded=true := by
  unfold readTagged at h
  split at h
  · cases h
  split_ifs at h with obj arr
  · split at h
    · cases h
    next tag members _ hm =>
      cases h
      have bounded : ∀ v∈members.map Prod.snd,v.isBounded=true := by
        refine readMembers_preserves
          (motive := fun state => ∀ v∈state.2.map Prod.snd,v.isBounded=true) ?_ (by simp) hm
        intro state name text state' rest hs h
        rcases readTaggedMember_ok h with same | ⟨v,_,hv,more⟩
        · rw [same]
          exact hs
        · rw [more]
          exact List.forall_mem_cons.mpr ⟨isBounded_of_readValue hv,hs⟩
      intro v hv
      rw [held,List.map_reverse] at hv
      exact bounded v (List.mem_reverse.mp hv)
    · cases h
  · split at h
    · cases h
    next tag items _ hi =>
      cases h
      have bounded : ∀ v∈items,v.isBounded=true := by
        refine readItems_preserves
          (motive := fun state => ∀ v∈state.2,v.isBounded=true) ?_ (by simp) hi
        intro state text state' rest hs h
        rcases readTaggedItem_ok h with same | ⟨v,_,hv,more⟩
        · rw [same]
          exact hs
        · rw [more]
          exact List.forall_mem_cons.mpr ⟨isBounded_of_readValue hv,hs⟩
      exact fun v hv => bounded v (List.mem_reverse.mp hv)
    · cases h

theorem readByTag_ok {α : Type} {decode? : Tagged → Option α} {a : α}
    (h : readByTag key names decode? text=.ok a) :
    ∃ tagged rest,readTagged key names (skipSpace text)=.ok (tagged,rest) ∧
      decode? tagged=some a := by
  unfold readByTag at h
  split at h
  · cases h
  next tagged rest read =>
    refine ⟨tagged,rest,read,?_⟩
    split at h
    · cases h
    next b decoded =>
      unfold readEnd at h
      split_ifs at h
      cases h
      exact decoded

end

theorem uint32?_toNat (n : UInt32) : (Json.int n.toNat).uint32?=some n := by
  have small := n.toNat_lt_size
  rw [uint32?,if_pos (by omega),Int.toNat_natCast,UInt32.ofNat_toNat]

theorem uint64?_toNat (n : UInt64) : (Json.int n.toNat).uint64?=some n := by
  have small := n.toNat_lt_size
  rw [uint64?,if_pos (by omega),Int.toNat_natCast,UInt64.ofNat_toNat]

/-- The fields of a record are among what its value holds. -/
theorem mem_held_of_record? {v : Json} {names : List String} {fields : List Json}
    (h : v.record? names=some fields) : ∀ w∈fields,w∈v.held := by
  cases v with
  | arr items =>
    rw [record?] at h
    split_ifs at h
    cases h
    exact fun w hw => hw
  | obj members =>
    have member {name : String} {w : Json} (hw : member? name members=some w) :
        w∈members.map Prod.snd := by
      unfold member? at hw
      split at hw
      next name' w' only =>
        cases hw
        have hm : (name',w)∈members.filter (fun m => m.1==name) := by
          rw [only]
          exact List.mem_singleton_self _
        exact List.mem_map.mpr ⟨_,(List.mem_filter.mp hm).1,rfl⟩
      next => cases hw
    rw [record?] at h
    induction names generalizing fields with
    | nil =>
      cases h
      simp
    | cons name names ih =>
      rw [List.mapM_cons] at h
      obtain ⟨w,hw,h⟩ := Option.bind_eq_some_iff.mp h
      obtain ⟨others,ho,h⟩ := Option.bind_eq_some_iff.mp h
      cases h
      exact List.forall_mem_cons.mpr ⟨member hw,ih ho⟩
  | _ => cases h

end FleetConsole.Json
