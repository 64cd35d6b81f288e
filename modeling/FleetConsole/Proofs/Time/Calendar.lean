import FleetConsole.Time.Calendar
import Mathlib.Tactic.SplitIfs

namespace FleetConsole.Date

theorem bounds_of_isValid {d : Date} (h : d.isValid=true) :
    (1 ≤ d.month ∧ d.month ≤ 12) ∧ 1 ≤ d.day ∧ d.day ≤ 31 := by
  have length : monthLength d.year d.month ≤ 31 := by
    unfold monthLength
    split_ifs <;> decide
  have within := of_decide_eq_true h
  omega

/-- A year that begins with March counts the days of the year in which it begins. -/
theorem toDays_fromMarch (year : Int) {shifted : Nat} (h : shifted ≤ 11) (day : Nat) :
    let month := if shifted<10 then shifted+3 else shifted-9
    toDays ⟨if month ≤ 2 then year+1 else year,month,day⟩=
      365*year+year/4-year/100+year/400+daysBeforeMonth shifted+(day : Int)-719469 := by
  dsimp only
  by_cases early : shifted<10
  · have month : ¬shifted+3 ≤ 2 := by omega
    rw [if_pos early,if_neg month,toDays]
    simp only [month,if_false,Nat.add_sub_cancel]
  · have month : shifted-9 ≤ 2 := by omega
    have back : shifted-9+9=shifted := by omega
    rw [if_neg early,if_pos month,toDays]
    simp only [month,if_true,back,Int.add_sub_cancel]

/-- Of every four years one has a leap day, but of the centuries only one in four. -/
theorem leapDays (cycle : Int) {century group year : Nat} (hc : century ≤ 3) (hg : group ≤ 24)
    (hy : year ≤ 3) :
    let y : Int := 400*cycle+100*century+4*group+year
    y/4-y/100+y/400=97*cycle+24*century+group := by
  dsimp only
  have four : (400*cycle+100*century+4*group+year)/4=100*cycle+25*century+group := by omega
  have hundred : (400*cycle+100*century+4*group+year)/100=4*cycle+century := by omega
  have whole : (400*cycle+100*century+4*group+year)/400=cycle := by omega
  rw [four,hundred,whole]
  omega

/-- A day of a year that begins with March falls in one of its twelve months. -/
theorem daysBeforeMonth_le {ofYear : Nat} (h : ofYear ≤ 365) :
    (5*ofYear+2)/153 ≤ 11 ∧ daysBeforeMonth ((5*ofYear+2)/153) ≤ ofYear := by
  unfold daysBeforeMonth
  omega

theorem toDays_ofDays (days : Int) : (ofDays days).toDays=days := by
  dsimp only [ofDays]
  generalize hcycle : (days+719468)/146097=cycle
  generalize hofCycle : ((days+719468)%146097).toNat=ofCycle
  generalize hcentury : min 3 (ofCycle/36524)=century
  generalize hofCentury : ofCycle-36524*century=ofCentury
  generalize hgroup : ofCentury/1461=group
  generalize hofGroup : ofCentury%1461=ofGroup
  generalize hyear : min 3 (ofGroup/365)=year
  generalize hofYear : ofGroup-365*year=ofYear
  -- Each part is the one before it divided, so what is left is linear.
  have cycles : days+719468=146097*cycle+ofCycle ∧ ofCycle ≤ 146096 := by omega
  have centuries : ofCycle=36524*century+ofCentury ∧ century ≤ 3 ∧ ofCentury ≤ 36524 := by omega
  have groups : ofCentury=1461*group+ofGroup ∧ group ≤ 24 ∧ ofGroup ≤ 1460 := by omega
  have years : ofGroup=365*year+ofYear ∧ year ≤ 3 ∧ ofYear ≤ 365 := by omega
  obtain ⟨within,before⟩ := daysBeforeMonth_le years.2.2
  have leap := leapDays cycle centuries.2.1 groups.2.1 years.2.1
  rw [toDays_fromMarch _ within]
  dsimp only at leap
  omega

end FleetConsole.Date
