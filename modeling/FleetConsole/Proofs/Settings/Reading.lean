import FleetConsole.Proofs.Json.Reader
import FleetConsole.Proofs.Json.Sorted
import FleetConsole.Settings.Basic
import Mathlib.Tactic.SplitIfs

namespace FleetConsole.Settings

/-- The limit that a value means: null is none. -/
def limitOf? : Json → Option (Option RateLimit)
  | .null => some none
  | v => v.uint32?.map (fun kb => some ⟨kb⟩)

/-- Members under the name of the limit, and all the others. -/
def own (members : List (String × Json)) : List (String × Json) :=
  members.filter (fun m => m.1==limitKey)

def others (members : List (String × Json)) : List (String × Json) :=
  members.filter (fun m => m.1 != limitKey)

/-- The limit of an object: none where there is no own member. Two of them mean nothing. -/
def ownLimit? (members : List (String × Json)) : Option (Option RateLimit) :=
  match own members with
  | [] => some none
  | [(_,v)] => limitOf? v
  | _ => none

/-- A reader answers with a value and what comes behind it, or refuses where there is none. -/
def Answers {α : Type} (expected : Option α) (rest : List Char)
    (answer : Except Json.Fault (α × List Char)) : Prop :=
  match expected with
  | some a => answer=.ok (a,rest)
  | none => ∃ fault,answer=.error fault

/-- Where any value can be read, a limit is read if the value means one. -/
theorem readLimit_of_readValue {depth : Nat} {text rest : List Char} {v : Json}
    (h : Json.readValue depth text=.ok (v,rest)) : Answers (limitOf? v) rest (readLimit text) := by
  obtain ⟨c,tail,rfl,_,_⟩ := Json.head_of_readValue h
  by_cases n : c = 'n'
  · rw [Json.readValue.eq_def] at h
    simp only [n,if_true] at h
    obtain ⟨after,hw,e⟩ := Json.map_ok h
    cases e
    simp only [readLimit,n,if_true,hw]
    rfl
  by_cases number : c = '-' ∨ Json.isDigit c=true
  · rw [Json.readValue_number number] at h
    have hn := Json.isNumber_of_readNumber h
    have hl : limitOf? v=v.uint32?.map (fun kb => some ⟨kb⟩) := by
      cases v with
      | null => cases hn
      | _ => rfl
    rw [hl]
    simp only [readLimit,n,number,if_true,if_false,h]
    cases v.uint32? with
    | none => exact ⟨_,rfl⟩
    | some kb => rfl
  · have other : v≠.null ∧ v.isNumber≠true := by
      rw [← not_or]
      intro hv
      rcases Json.start_of_readValue h hv with hc | hc
      · exact n hc
      · exact number hc
    have hl : limitOf? v=none := by
      cases v with
      | null => exact absurd rfl other.1
      | int k => exact absurd rfl other.2
      | _ => rfl
    rw [hl]
    simp only [readLimit,n,number,if_false]
    exact ⟨_,rfl⟩

/-- What a member does to the members read so far. -/
def Members.take? (state : Members) (name : String) (v : Json) : Option Members :=
  if name=limitKey then
    if state.limit.isSome then none
    else (limitOf? v).map (fun limit => { state with limit := some limit })
  else some { state with other := (name,v) :: state.other }

def Members.takeAll? (state : Members) : List (String × Json) → Option Members
  | [] => some state
  | (name,v) :: rest => (state.take? name v).bind (fun next => next.takeAll? rest)

/-- Where any member can be read, it is read as one of the settings, if it may be one. -/
theorem readMember_of_memberReader {done out : List (String × Json)} {name : String}
    {text rest : List Char}
    (h : Json.memberReader (Json.maxDepth-1) done name text=.ok (out,rest)) :
    ∃ v,out=(name,v) :: done ∧
      ∀ state : Members,Answers (state.take? name v) rest (readMember state name text) := by
  unfold Json.memberReader at h
  split at h
  · cases h
  next value hc =>
    obtain ⟨⟨v,after⟩,hv,e⟩ := Json.map_ok h
    cases e
    refine ⟨v,rfl,fun state => ?_⟩
    unfold Members.take? readMember
    by_cases own : name=limitKey
    · rw [if_pos own,if_pos own]
      cases hs : state.limit.isSome with
      | true => exact ⟨_,rfl⟩
      | false =>
        have hl := readLimit_of_readValue hv
        rw [if_neg Bool.false_ne_true,if_neg Bool.false_ne_true,hc]
        cases ho : limitOf? v with
        | none =>
          rw [ho] at hl
          obtain ⟨fault,hf⟩ := hl
          exact ⟨fault,by simp [bind,Except.bind,hf]⟩
        | some limit =>
          rw [ho] at hl
          have hr : readLimit value=.ok (limit,rest) := hl
          simp [bind,Except.bind,hr,Answers]
    · rw [if_neg own,if_neg own,hc]
      simp [bind,Except.bind,hv,Answers]

theorem readMembersFrom_answers {fuel text rest : List Char} {done out : List (String × Json)}
    (h : Json.readMembersFrom (Json.memberReader (Json.maxDepth-1)) fuel done text=.ok (out,rest)) :
    ∃ members,out=members.reverse++done ∧
      ∀ state : Members,Answers (state.takeAll? members) rest
        (Json.readMembersFrom readMember fuel state text) := by
  induction fuel generalizing done text with
  | nil => cases h
  | cons f fuel ih =>
    obtain ⟨_,_,name,value,done',next,e,hk,ho,hn⟩ := Json.readMembersFrom_ok h
    cases e
    obtain ⟨v,rfl,hone⟩ := readMember_of_memberReader ho
    -- A member refused by the settings ends the reading, whatever comes behind it.
    have refused {state : Members} (ht : state.take? name v=none) (more : List (String × Json)) :
        Answers (state.takeAll? ((name,v) :: more)) rest
          (Json.readMembersFrom readMember (f :: fuel) state text) := by
      have hs := hone state
      rw [ht] at hs
      obtain ⟨fault,hf⟩ := hs
      rw [Members.takeAll?,ht]
      exact ⟨fault,Json.readMembersFrom_error hk hf f fuel⟩
    have taken {state state' : Members} (ht : state.take? name v=some state') :
        readMember state name value=.ok (state',next) := by
      have hs := hone state
      rw [ht] at hs
      exact hs
    rcases hn with ⟨hend,rfl⟩ | ⟨more,hcomma,hr⟩
    · refine ⟨[(name,v)],rfl,fun state => ?_⟩
      cases ht : state.take? name v with
      | none => exact refused ht []
      | some state' =>
        rw [Members.takeAll?,ht]
        exact Json.readMembersFrom_close hk (taken ht) hend f fuel
    · obtain ⟨members,rfl,hall⟩ := ih hr
      refine ⟨(name,v) :: members,by simp,fun state => ?_⟩
      cases ht : state.take? name v with
      | none => exact refused ht members
      | some state' =>
        rw [Members.takeAll?,ht,Option.bind_some,
          Json.readMembersFrom_comma hk (taken ht) hcomma f fuel]
        exact hall state'

theorem readMembers_answers {text rest : List Char} {out : List (String × Json)}
    (h : Json.readMembers (Json.memberReader (Json.maxDepth-1)) [] text=.ok (out,rest)) :
    ∀ state : Members,Answers (state.takeAll? out.reverse) rest
      (Json.readMembers readMember state text) := by
  intro state
  unfold Json.readMembers at h ⊢
  split at h
  · cases h
  · split at h
    next hc =>
      cases h
      rw [if_pos hc]
      rfl
    next hc =>
      obtain ⟨members,rfl,hall⟩ := readMembersFrom_answers h
      rw [if_neg hc,List.append_nil,List.reverse_reverse]
      exact hall state

section Cons

variable {name : String} (v : Json) (members : List (String × Json))

theorem own_cons_own (h : name=limitKey) : own ((name,v) :: members)=(name,v) :: own members :=
  List.filter_cons_of_pos (by simp [h])

theorem own_cons_other (h : name≠limitKey) : own ((name,v) :: members)=own members :=
  List.filter_cons_of_neg (by simp [h])

theorem others_cons_own (h : name=limitKey) : others ((name,v) :: members)=others members :=
  List.filter_cons_of_neg (by simp [h])

theorem others_cons_other (h : name≠limitKey) :
    others ((name,v) :: members)=(name,v) :: others members :=
  List.filter_cons_of_pos (by simp [h])

theorem ownLimit?_cons_own (h : name=limitKey) :
    ownLimit? ((name,v) :: members)=if own members=[] then limitOf? v else none := by
  rw [ownLimit?,own_cons_own v members h]
  cases own members <;> rfl

theorem ownLimit?_cons_other (h : name≠limitKey) :
    ownLimit? ((name,v) :: members)=ownLimit? members := by
  rw [ownLimit?,own_cons_other v members h,ownLimit?]

end Cons

/-- Once there is a limit, only others may follow. -/
theorem takeAll?_limited (limit : Option RateLimit) (other members : List (String × Json)) :
    (Members.mk (some limit) other).takeAll? members=
      if own members=[] then some ⟨some limit,(others members).reverse++other⟩ else none := by
  induction members generalizing other with
  | nil => rfl
  | cons m rest ih =>
    obtain ⟨name,v⟩ := m
    rw [Members.takeAll?,Members.take?]
    by_cases h : name=limitKey
    · rw [if_pos h,own_cons_own v rest h]
      rfl
    · rw [if_neg h,own_cons_other v rest h,others_cons_other v rest h,Option.bind_some,ih]
      simp

theorem takeAll?_unlimited (other members : List (String × Json)) :
    ((Members.mk none other).takeAll? members).map (fun m => (m.limit.join,m.other))=
      (ownLimit? members).map (fun limit => (limit,(others members).reverse++other)) := by
  induction members generalizing other with
  | nil => rfl
  | cons m rest ih =>
    obtain ⟨name,v⟩ := m
    rw [Members.takeAll?,Members.take?]
    by_cases h : name=limitKey
    · rw [if_pos h,ownLimit?_cons_own v rest h,others_cons_own v rest h]
      cases hl : limitOf? v with
      | none => simp
      | some limit =>
        simp only [Option.isSome_none,Bool.false_eq_true,if_false,Option.map_some,
          Option.bind_some,takeAll?_limited]
        split <;> rfl
    · rw [if_neg h,ownLimit?_cons_other v rest h,others_cons_other v rest h,Option.bind_some,ih]
      simp

theorem read_of_members {text tail rest : List Char} {members : Members}
    (ht : Json.skipSpace text = '\x7b' :: tail)
    (hm : Json.readMembers readMember ⟨none,[]⟩ tail=.ok (members,rest))
    (hend : Json.skipSpace rest=[]) : Settings.read text=.ok (ofMembers members) := by
  simp [Settings.read,ht,hm,Json.readEnd,hend]

theorem read_of_fault {text tail : List Char} {fault : Json.Fault}
    (ht : Json.skipSpace text = '\x7b' :: tail)
    (hm : Json.readMembers readMember ⟨none,[]⟩ tail=.error fault) :
    Settings.read text=.error fault := by
  simp [Settings.read,ht,hm]

/-- From an object whose own member holds a limit, settings are read, and from no other. -/
theorem read_of_obj {text : List Char} {members : List (String × Json)}
    (h : Json.read text=.ok (.obj members)) :
    (ownLimit? members).elim (∃ fault,Settings.read text=.error fault) (fun limit =>
      Settings.read text=
        .ok ⟨limit,SortedMap.ofList (Json.sortedMembers (others members))⟩) := by
  obtain ⟨rest,hv,hend⟩ := Json.read_ok h
  rcases Json.readValue_ok hv with hs | ⟨_,_,_,_,_,_,e⟩ | ⟨d,tail,done,hd,htext,hm,e⟩
  · cases hs
  · cases e
  · cases e
    cases Nat.succ.inj hd
    have hall := readMembers_answers hm ⟨none,[]⟩
    have taken := takeAll?_unlimited [] done.reverse
    cases ho : ownLimit? done.reverse with
    | none =>
      rw [ho,Option.map_none,Option.map_eq_none_iff] at taken
      rw [taken] at hall
      obtain ⟨fault,hf⟩ := hall
      exact ⟨fault,read_of_fault htext hf⟩
    | some limit =>
      rw [ho,Option.map_some,Option.map_eq_some_iff] at taken
      obtain ⟨last,hl,e⟩ := taken
      rw [hl] at hall
      obtain ⟨el,eo⟩ := Prod.mk.inj e
      have hs := read_of_members htext hall hend
      rw [ofMembers,el,eo,List.append_nil,List.reverse_reverse] at hs
      exact hs

/-- Where a limit is read, a value is read. -/
theorem readValue_of_readLimit {text rest : List Char} {limit : Option RateLimit}
    (h : readLimit text=.ok (limit,rest)) (depth : Nat) :
    ∃ v,Json.readValue depth text=.ok (v,rest) := by
  cases text with
  | nil => cases h
  | cons c tail =>
    by_cases n : c = 'n'
    · subst n
      have word : (Json.readWord ['u','l','l'] tail).map (fun rest => ((none : Option RateLimit),rest))=
          .ok (limit,rest) := h
      obtain ⟨after,hw,e⟩ := Json.map_ok word
      cases e
      refine ⟨.null,?_⟩
      rw [Json.readValue.eq_def]
      simp only [if_true,hw]
      rfl
    by_cases number : c = '-' ∨ Json.isDigit c=true
    · simp only [readLimit,n,number,if_true,if_false] at h
      split at h
      · cases h
      next v rest' hr =>
        split at h
        · cases h
          exact ⟨v,(Json.readValue_number number depth tail).trans hr⟩
        · cases h
    · simp only [readLimit,n,number,if_false] at h
      cases h

theorem memberReader_of_readMember {state state' : Members} {name : String}
    {text rest : List Char} (h : readMember state name text=.ok (state',rest))
    (done : List (String × Json)) :
    ∃ v,Json.memberReader (Json.maxDepth-1) done name text=.ok ((name,v) :: done,rest) := by
  have value {text' : List Char} (hc : Json.readColon text=.ok text')
      (hv : ∃ v,Json.readValue (Json.maxDepth-1) text'=.ok (v,rest)) :
      ∃ v,Json.memberReader (Json.maxDepth-1) done name text=.ok ((name,v) :: done,rest) := by
    obtain ⟨v,hv⟩ := hv
    refine ⟨v,?_⟩
    simp only [Json.memberReader,hc,hv]
    rfl
  unfold readMember at h
  split_ifs at h
  · obtain ⟨text',hc,h⟩ := Json.bind_ok h
    obtain ⟨⟨limit,after⟩,hl,e⟩ := Json.bind_ok h
    cases e
    exact value hc (readValue_of_readLimit hl _)
  · obtain ⟨text',hc,h⟩ := Json.bind_ok h
    obtain ⟨⟨v,after⟩,hv,e⟩ := Json.bind_ok h
    cases e
    exact value hc ⟨v,hv⟩

theorem readMembersFrom_of_readMember {fuel text rest : List Char} {state last : Members}
    (h : Json.readMembersFrom readMember fuel state text=.ok (last,rest))
    (done : List (String × Json)) :
    ∃ out,Json.readMembersFrom (Json.memberReader (Json.maxDepth-1)) fuel done text=
      .ok (out,rest) := by
  induction fuel generalizing state text done with
  | nil => cases h
  | cons f fuel ih =>
    obtain ⟨_,_,name,value,state',next,e,hk,ho,hn⟩ := Json.readMembersFrom_ok h
    cases e
    obtain ⟨v,hone⟩ := memberReader_of_readMember ho done
    rcases hn with ⟨hend,_⟩ | ⟨more,hcomma,hr⟩
    · exact ⟨_,Json.readMembersFrom_close hk hone hend f fuel⟩
    · obtain ⟨out,hout⟩ := ih hr ((name,v) :: done)
      exact ⟨out,(Json.readMembersFrom_comma hk hone hcomma f fuel).trans hout⟩

/-- Every text that stands for settings is an object. -/
theorem obj_of_read {text : List Char} {s : Settings} (h : read text=.ok s) :
    ∃ members,Json.read text=.ok (.obj members) := by
  unfold read at h
  dsimp only at h
  split at h
  · cases h
  next c tail ht =>
    split_ifs at h with hc
    subst hc
    split at h
    · cases h
    next last rest hm =>
      have members : ∃ out,Json.readMembers (Json.memberReader (Json.maxDepth-1)) [] tail=
          .ok (out,rest) := by
        unfold Json.readMembers at hm ⊢
        split at hm
        · cases hm
        next c' rest' hs =>
          split_ifs at hm ⊢ with hclose
          · cases hm
            exact ⟨[],rfl⟩
          · exact readMembersFrom_of_readMember hm []
      obtain ⟨out,hout⟩ := members
      have hv : Json.readValue Json.maxDepth ('\x7b' :: tail)=.ok (.obj out.reverse,rest) := by
        show Json.readValue (Json.maxDepth-1+1) ('\x7b' :: tail)=_
        rw [Json.readValue_obj,hout]
        rfl
      refine ⟨out.reverse,?_⟩
      have ended : Json.skipSpace rest=[] := by
        unfold Json.readEnd at h
        split_ifs at h with he
        exact he
      show (Json.readValue Json.maxDepth (Json.skipSpace text)).bind _=_
      rw [ht,hv]
      exact if_pos ended

/-- What settings are read from, and what is read: an object with a limit or none for its own
member, and the other members in key order. -/
theorem read_iff {text : List Char} {s : Settings} :
    read text=.ok s ↔ ∃ members limit,Json.read text=.ok (.obj members) ∧
      ownLimit? members=some limit ∧
      s=⟨limit,SortedMap.ofList (Json.sortedMembers (others members))⟩ := by
  constructor
  · intro h
    obtain ⟨members,hm⟩ := obj_of_read h
    have meaning := read_of_obj hm
    cases ho : ownLimit? members with
    | none =>
      rw [ho] at meaning
      obtain ⟨fault,refused⟩ := meaning
      cases refused.symm.trans h
    | some limit =>
      rw [ho,Option.elim_some] at meaning
      cases meaning.symm.trans h
      exact ⟨members,limit,hm,ho,rfl⟩
  · rintro ⟨members,limit,hm,ho,rfl⟩
    have meaning := read_of_obj hm
    rwa [ho,Option.elim_some] at meaning

end FleetConsole.Settings
