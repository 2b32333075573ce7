import ReticulumLite.Radio
import Mathlib.Algebra.Order.BigOperators.Group.List

/-!
# The airtime limiter keeps its budget

A window runs from the call that opened it to the first call past its end. Its charges stay in the
budget, but for one frame longer than the budget that found it empty. Windows start at least one
length apart, so the airtime charged up to a time is bounded by the number of windows that fit
before it.
-/

namespace ReticulumLite

open Bounded

namespace AirtimeLimiter

inductive Call where
  | reserve (airtimeMs nowMs : Nat)
  | canReserve (airtimeMs nowMs : Nat)
  | waitMs (airtimeMs nowMs : Nat)
  deriving DecidableEq

namespace Call

def nowMs : Call → Nat
  | reserve _ nowMs => nowMs
  | canReserve _ nowMs => nowMs
  | waitMs _ nowMs => nowMs

def airtimeMs : Call → Nat
  | reserve airtimeMs _ => airtimeMs
  | canReserve airtimeMs _ => airtimeMs
  | waitMs airtimeMs _ => airtimeMs

def Asks : Call → Prop
  | reserve _ _ => False
  | canReserve _ _ => True
  | waitMs _ _ => True

end Call

def perform (l : AirtimeLimiter) : Call → AirtimeLimiter
  | .reserve airtimeMs nowMs => (l.reserve airtimeMs nowMs).1
  | .canReserve airtimeMs nowMs => (l.canReserve airtimeMs nowMs).1
  | .waitMs airtimeMs nowMs => (l.waitMs airtimeMs nowMs).1

/-- The airtime a call adds: that of an admitted reservation. -/
def charge (l : AirtimeLimiter) : Call → Nat
  | .reserve airtimeMs nowMs => if (l.reserve airtimeMs nowMs).2 then airtimeMs else 0
  | .canReserve _ _ => 0
  | .waitMs _ _ => 0

def after (l : AirtimeLimiter) (calls : List Call) : AirtimeLimiter := calls.foldl perform l

/-- What a call charged, when, and to the window that started when. -/
structure Charge where
  windowStartMs : Nat
  nowMs : Nat
  airtimeMs : Nat

def charges : AirtimeLimiter → List Call → List Charge
  | _, [] => []
  | l, call :: calls =>
      ⟨(l.perform call).windowStartMs, call.nowMs, l.charge call⟩ :: charges (l.perform call) calls

def chargedTo (windowStartMs : Nat) (charges : List Charge) : List Nat :=
  (charges.filter fun c => c.windowStartMs == windowStartMs && decide (0 < c.airtimeMs)).map
    (·.airtimeMs)

def chargedBy (nowMs : Nat) (charges : List Charge) : Nat :=
  ((charges.filter fun c => decide (c.nowMs ≤ nowMs)).map (·.airtimeMs)).sum

/-- The limiter has this window and this budget, and its count is a word. -/
structure Limits (l : AirtimeLimiter) (window budget : Nat) : Prop where
  window_eq : l.windowMs = window
  budget_eq : max l.budgetMs 1 = budget
  pos : 0 < window
  used_le : l.usedAirtimeMs ≤ u64Max

/-- Calls in the order of time, none before the window. -/
structure InOrder (l : AirtimeLimiter) (calls : List Call) : Prop where
  start : ∀ call ∈ calls, l.windowStartMs ≤ call.nowMs
  sorted : calls.Pairwise fun call call' => call.nowMs ≤ call'.nowMs

def Fits (budget : Nat) (charged : List Nat) : Prop :=
  charged.sum ≤ budget ∨ ∃ airtimeMs, budget < airtimeMs ∧ charged = [airtimeMs]

variable {l : AirtimeLimiter} {call : Call} {calls : List Call}
  {window budget airtimeMs nowMs : Nat}

/-! ### One call -/

theorem refresh_cases (hlimits : l.Limits window budget) (hstart : l.windowStartMs ≤ nowMs) :
    (l.refresh nowMs = l ∧ nowMs < l.windowStartMs + window) ∨
      (l.refresh nowMs = { l with windowStartMs := nowMs, usedAirtimeMs := 0 } ∧
        l.windowStartMs + window ≤ nowMs) := by
  have hpos := hlimits.pos
  have hwindow := hlimits.window_eq
  unfold refresh
  rw [if_neg (by omega)]
  by_cases hended : nowMs - l.windowStartMs ≥ l.windowMs
  · rw [if_pos hended]
    exact Or.inr ⟨rfl, by omega⟩
  · rw [if_neg hended]
    exact Or.inl ⟨rfl, by omega⟩

theorem Limits.refresh (hlimits : l.Limits window budget) (nowMs : Nat) :
    (l.refresh nowMs).Limits window budget := by
  unfold AirtimeLimiter.refresh
  split
  · exact ⟨hlimits.window_eq, hlimits.budget_eq, hlimits.pos, Nat.zero_le _⟩
  · split
    · exact ⟨hlimits.window_eq, hlimits.budget_eq, hlimits.pos, Nat.zero_le _⟩
    · exact hlimits

theorem canReserve_fst (l : AirtimeLimiter) (airtimeMs nowMs : Nat) :
    (l.canReserve airtimeMs nowMs).1 = l.refresh nowMs := by
  unfold canReserve
  dsimp only
  split <;> rfl

theorem canReserve_iff (hlimits : l.Limits window budget) :
    (l.canReserve airtimeMs nowMs).2 = true ↔
      airtimeMs = 0 ∨ satAdd (l.refresh nowMs).usedAirtimeMs airtimeMs ≤ budget ∨
        ((l.refresh nowMs).usedAirtimeMs = 0 ∧ budget < airtimeMs) := by
  unfold canReserve
  dsimp only
  rw [(hlimits.refresh nowMs).budget_eq]
  by_cases hzero : airtimeMs = 0
  · rw [if_pos hzero]
    exact iff_of_true rfl (Or.inl hzero)
  · rw [if_neg hzero]
    simp only [Bool.or_eq_true, Bool.and_eq_true, decide_eq_true_eq, beq_iff_eq, hzero, false_or,
      gt_iff_lt]

theorem reserve_snd (l : AirtimeLimiter) (airtimeMs nowMs : Nat) :
    (l.reserve airtimeMs nowMs).2 = (l.canReserve airtimeMs nowMs).2 := by
  unfold reserve
  dsimp only
  cases (l.canReserve airtimeMs nowMs).2 <;> rfl

theorem reserve_of_refused (hrefused : (l.reserve airtimeMs nowMs).2 = false) :
    (l.reserve airtimeMs nowMs).1 = l.refresh nowMs := by
  rw [reserve_snd] at hrefused
  unfold reserve
  dsimp only
  rw [hrefused, canReserve_fst]
  rfl

theorem reserve_of_admitted (hadmitted : (l.reserve airtimeMs nowMs).2 = true) :
    (l.reserve airtimeMs nowMs).1 = { l.refresh nowMs with
      usedAirtimeMs := satAdd (l.refresh nowMs).usedAirtimeMs airtimeMs } := by
  rw [reserve_snd] at hadmitted
  unfold reserve
  dsimp only
  rw [hadmitted, canReserve_fst]
  rfl

theorem waitMs_fst (l : AirtimeLimiter) (airtimeMs nowMs : Nat) :
    (l.waitMs airtimeMs nowMs).1 = l.refresh nowMs := by
  rw [← canReserve_fst l airtimeMs nowMs]
  unfold waitMs
  dsimp only
  split <;> rfl

theorem perform_of_asks (hasks : call.Asks) : l.perform call = l.refresh call.nowMs := by
  cases call with
  | reserve => exact hasks.elim
  | canReserve airtimeMs nowMs => exact canReserve_fst l airtimeMs nowMs
  | waitMs airtimeMs nowMs => exact waitMs_fst l airtimeMs nowMs

theorem budget_lt (hlimits : l.Limits window budget) : budget < u64Max := by
  have hbudget := hlimits.budget_eq
  unfold budgetMs satMul basisPointsDenominator at hbudget
  unfold u64Max at *
  omega

/-- A call looks at the clock and adds its charge, which fits what the window has charged. -/
theorem perform_spec (hlimits : l.Limits window budget) (hairtime : call.airtimeMs ≤ u64Max) :
    l.perform call = { l.refresh call.nowMs with
        usedAirtimeMs := (l.refresh call.nowMs).usedAirtimeMs + l.charge call } ∧
      l.charge call ≤ call.airtimeMs ∧
      (l.charge call = 0 ∨ (l.refresh call.nowMs).usedAirtimeMs + l.charge call ≤ budget ∨
        ((l.refresh call.nowMs).usedAirtimeMs = 0 ∧ budget < l.charge call)) := by
  cases call with
  | reserve airtimeMs nowMs =>
      have hbudget := budget_lt hlimits
      have hle : airtimeMs ≤ u64Max := hairtime
      cases hadmitted : (l.reserve airtimeMs nowMs).2 with
      | false =>
          have hcharge : l.charge (.reserve airtimeMs nowMs) = 0 := by
            rw [charge, if_neg (by rw [hadmitted]; exact Bool.false_ne_true)]
          rw [hcharge]
          exact ⟨reserve_of_refused hadmitted, Nat.zero_le _, Or.inl rfl⟩
      | true =>
          have hcharge : l.charge (.reserve airtimeMs nowMs) = airtimeMs := by
            rw [charge, if_pos hadmitted]
          have hperform : l.perform (.reserve airtimeMs nowMs) = _ := reserve_of_admitted hadmitted
          have hused := (hlimits.refresh nowMs).used_le
          rw [reserve_snd, canReserve_iff hlimits] at hadmitted
          -- an admitted sum is within the budget or has one term: it does not saturate
          have hexact : satAdd (l.refresh nowMs).usedAirtimeMs airtimeMs =
              (l.refresh nowMs).usedAirtimeMs + airtimeMs := by
            unfold satAdd at *
            omega
          rw [hexact] at hadmitted hperform
          rw [hcharge, hperform]
          exact ⟨rfl, le_rfl, hadmitted⟩
  | canReserve airtimeMs nowMs =>
      exact ⟨canReserve_fst l airtimeMs nowMs, Nat.zero_le _, Or.inl rfl⟩
  | waitMs airtimeMs nowMs => exact ⟨waitMs_fst l airtimeMs nowMs, Nat.zero_le _, Or.inl rfl⟩

theorem Limits.perform (hlimits : l.Limits window budget) (hairtime : call.airtimeMs ≤ u64Max) :
    (l.perform call).Limits window budget := by
  obtain ⟨hperform, hle, hcharge⟩ := perform_spec hlimits hairtime
  have hrefresh := hlimits.refresh call.nowMs
  have hbudget := budget_lt hlimits
  have hused := hrefresh.used_le
  rw [hperform]
  exact ⟨hrefresh.window_eq, hrefresh.budget_eq, hrefresh.pos, by dsimp only; omega⟩

section

variable (hlimits : l.Limits window budget) (hairtime : call.airtimeMs ≤ u64Max)

include hlimits hairtime

theorem perform_cases (hstart : l.windowStartMs ≤ call.nowMs) :
    ((l.perform call).windowStartMs = l.windowStartMs ∧
        (l.perform call).usedAirtimeMs = l.usedAirtimeMs + l.charge call ∧
        (l.charge call = 0 ∨ l.usedAirtimeMs + l.charge call ≤ budget ∨
          (l.usedAirtimeMs = 0 ∧ budget < l.charge call))) ∨
      ((l.perform call).windowStartMs = call.nowMs ∧ l.windowStartMs + window ≤ call.nowMs ∧
        (l.perform call).usedAirtimeMs = l.charge call) := by
  obtain ⟨hperform, -, hcharge⟩ := perform_spec hlimits hairtime
  rcases refresh_cases hlimits hstart with ⟨hrefresh, -⟩ | ⟨hrefresh, hended⟩
  · rw [hrefresh] at hperform hcharge
    exact Or.inl ⟨by rw [hperform], by rw [hperform], hcharge⟩
  · rw [hrefresh] at hperform
    exact Or.inr ⟨by rw [hperform], hended, by rw [hperform]; exact Nat.zero_add _⟩

theorem perform_start_le (hstart : l.windowStartMs ≤ call.nowMs) :
    (l.perform call).windowStartMs ≤ call.nowMs := by
  rcases perform_cases hlimits hairtime hstart with ⟨hsame, -⟩ | ⟨hnext, -⟩
  · exact hsame.le.trans hstart
  · exact hnext.le

theorem InOrder.tail (horder : l.InOrder (call :: calls)) : (l.perform call).InOrder calls := by
  obtain ⟨hbefore, hsorted⟩ := List.pairwise_cons.mp horder.sorted
  have hstart := perform_start_le hlimits hairtime (horder.start call List.mem_cons_self)
  exact ⟨fun later hlater => hstart.trans (hbefore later hlater), hsorted⟩

end

/-! ### What a window has charged -/

theorem chargedTo_append (start : Nat) (log log' : List Charge) :
    chargedTo start (log ++ log') = chargedTo start log ++ chargedTo start log' := by
  unfold chargedTo
  rw [List.filter_append, List.map_append]

theorem chargedTo_single (start : Nat) (c : Charge) :
    chargedTo start [c] = if c.windowStartMs = start ∧ 0 < c.airtimeMs then [c.airtimeMs] else [] := by
  unfold chargedTo
  by_cases hc : c.windowStartMs = start ∧ 0 < c.airtimeMs
  · rw [if_pos hc, List.filter_cons_of_pos (by simpa using hc)]
    rfl
  · rw [if_neg hc, List.filter_cons_of_neg (by simpa using hc)]
    rfl

theorem sum_chargedTo_single (c : Charge) : (chargedTo c.windowStartMs [c]).sum = c.airtimeMs := by
  rw [chargedTo_single]
  split
  · exact List.sum_singleton
  · rw [List.sum_nil]
    omega

theorem chargedTo_eq_nil {start : Nat} {log : List Charge}
    (hlog : ∀ c ∈ log, c.windowStartMs ≠ start) : chargedTo start log = [] := by
  unfold chargedTo
  rw [List.filter_eq_nil_iff.mpr, List.map_nil]
  intro c hc hmem
  rw [Bool.and_eq_true, beq_iff_eq] at hmem
  exact hlog c hc hmem.1

theorem chargedTo_pos {start : Nat} {log : List Charge} (hsum : (chargedTo start log).sum = 0) :
    chargedTo start log = [] := by
  refine List.eq_nil_iff_forall_not_mem.mpr fun airtimeMs hmem => ?_
  have hzero : airtimeMs = 0 := by
    have hle := List.single_le_sum (fun _ _ => Nat.zero_le _) _ hmem
    omega
  obtain ⟨c, hc, rfl⟩ := List.mem_map.mp hmem
  have hpos := (List.mem_filter.mp hc).2
  rw [Bool.and_eq_true, decide_eq_true_eq] at hpos
  omega

/-- The log is true of the state: it has the charges of the window, no window in it is later than
that, and each kept its budget. -/
structure Accounts (budget : Nat) (l : AirtimeLimiter) (log : List Charge) : Prop where
  used : (chargedTo l.windowStartMs log).sum = l.usedAirtimeMs
  past : ∀ c ∈ log, c.windowStartMs ≤ l.windowStartMs
  fits : ∀ start, Fits budget (chargedTo start log)

theorem Accounts.perform {log : List Charge} (hlimits : l.Limits window budget)
    (hairtime : call.airtimeMs ≤ u64Max) (hstart : l.windowStartMs ≤ call.nowMs)
    (haccounts : Accounts budget l log) :
    Accounts budget (l.perform call)
      (log ++ [⟨(l.perform call).windowStartMs, call.nowMs, l.charge call⟩]) := by
  have hpos := hlimits.pos
  have hlast := sum_chargedTo_single ⟨(l.perform call).windowStartMs, call.nowMs, l.charge call⟩
  dsimp only at hlast
  rcases perform_cases hlimits hairtime hstart with ⟨hsame, hused, hcharge⟩ | ⟨hnext, hended, hused⟩
  · refine ⟨?_, ?_, fun start => ?_⟩
    · rw [chargedTo_append, List.sum_append, hlast, hused, hsame, haccounts.used]
    · intro c hc
      rcases List.mem_append.mp hc with hc | hc
      · exact (haccounts.past c hc).trans hsame.ge
      · rw [List.mem_singleton.mp hc]
    · rw [chargedTo_append, chargedTo_single]
      split
      · next hthis =>
          obtain ⟨rfl, hcharged⟩ := hthis
          have hwindow : (chargedTo (l.perform call).windowStartMs log).sum = l.usedAirtimeMs := by
            rw [hsame, haccounts.used]
          dsimp only at hcharged ⊢
          rcases hcharge with hzero | hfits | ⟨hempty, hlong⟩
          · omega
          · left
            rw [List.sum_append, List.sum_singleton, hwindow]
            exact hfits
          · right
            rw [chargedTo_pos (hwindow.trans hempty)]
            exact ⟨_, hlong, rfl⟩
      · rw [List.append_nil]
        exact haccounts.fits start
  · have hnew : ∀ c ∈ log, c.windowStartMs < (l.perform call).windowStartMs := by
      intro c hc
      have := haccounts.past c hc
      omega
    have hnil : chargedTo (l.perform call).windowStartMs log = [] :=
      chargedTo_eq_nil fun c hc => (hnew c hc).ne
    refine ⟨?_, ?_, fun start => ?_⟩
    · rw [chargedTo_append, List.sum_append, hlast, hused, hnil, List.sum_nil, Nat.zero_add]
    · intro c hc
      rcases List.mem_append.mp hc with hc | hc
      · exact (hnew c hc).le
      · rw [List.mem_singleton.mp hc]
    · rw [chargedTo_append, chargedTo_single]
      split
      · next hthis =>
          obtain ⟨rfl, -⟩ := hthis
          dsimp only at hnil ⊢
          rw [hnil, List.nil_append]
          by_cases hfits : l.charge call ≤ budget
          · exact Or.inl (List.sum_singleton.le.trans hfits)
          · exact Or.inr ⟨_, not_le.mp hfits, rfl⟩
      · rw [List.append_nil]
        exact haccounts.fits start

/-- The log of requests within the budget: windows lie at least one length apart, and each adds at
most the budget. -/
structure Spread (window budget : Nat) (l : AirtimeLimiter) (log : List Charge) : Prop where
  used : l.usedAirtimeMs ≤ budget
  total : (log.map (·.airtimeMs)).sum ≤ budget * (l.windowStartMs / window) + l.usedAirtimeMs
  upTo : ∀ nowMs, chargedBy nowMs log ≤ budget * (1 + nowMs / window)

theorem chargedBy_append (nowMs : Nat) (log log' : List Charge) :
    chargedBy nowMs (log ++ log') = chargedBy nowMs log + chargedBy nowMs log' := by
  unfold chargedBy
  rw [List.filter_append, List.map_append, List.sum_append]

theorem chargedBy_le (nowMs : Nat) (log : List Charge) :
    chargedBy nowMs log ≤ (log.map (·.airtimeMs)).sum :=
  (List.filter_sublist.map _).sum_le_sum fun _ _ => Nat.zero_le _

theorem Spread.perform {log : List Charge} (hlimits : l.Limits window budget)
    (hairtime : call.airtimeMs ≤ u64Max) (hstart : l.windowStartMs ≤ call.nowMs)
    (hshort : call.airtimeMs ≤ budget) (hspread : Spread window budget l log) :
    Spread window budget (l.perform call)
      (log ++ [⟨(l.perform call).windowStartMs, call.nowMs, l.charge call⟩]) := by
  have hcharged : l.charge call ≤ budget := (perform_spec hlimits hairtime).2.1.trans hshort
  have hused := hspread.used
  have htotal := hspread.total
  have hstep : (l.perform call).usedAirtimeMs ≤ budget ∧
      (log.map (·.airtimeMs)).sum + l.charge call ≤
        budget * ((l.perform call).windowStartMs / window) + (l.perform call).usedAirtimeMs := by
    rcases perform_cases hlimits hairtime hstart with
      ⟨hsame, hperform, hcharge⟩ | ⟨hnext, hended, hperform⟩
    · rw [hsame, hperform]
      exact ⟨by omega, by omega⟩
    · -- the budget of the window that ended pays for what it had charged
      have hquotient : l.windowStartMs / window + 1 ≤ call.nowMs / window := by
        rw [← Nat.add_div_right _ hlimits.pos]
        exact Nat.div_le_div_right hended
      have hbudget := Nat.mul_le_mul_left budget hquotient
      rw [Nat.mul_add, Nat.mul_one] at hbudget
      rw [hnext, hperform]
      exact ⟨hcharged, by omega⟩
  have hsum : ((log ++ [Charge.mk (l.perform call).windowStartMs call.nowMs (l.charge call)]).map
      (·.airtimeMs)).sum = (log.map (·.airtimeMs)).sum + l.charge call := by
    rw [List.map_append, List.sum_append]
    exact congrArg _ List.sum_singleton
  refine ⟨hstep.1, hsum.le.trans hstep.2, fun nowMs => ?_⟩
  by_cases hpast : call.nowMs ≤ nowMs
  · have hquotient : (l.perform call).windowStartMs / window ≤ nowMs / window :=
      Nat.div_le_div_right ((perform_start_le hlimits hairtime hstart).trans hpast)
    have hbudget := Nat.mul_le_mul_left budget hquotient
    have hle := (chargedBy_le nowMs _).trans (hsum.le.trans hstep.2)
    rw [Nat.mul_add, Nat.mul_one]
    omega
  · have hnone : chargedBy nowMs [⟨(l.perform call).windowStartMs, call.nowMs, l.charge call⟩] = 0 := by
      unfold chargedBy
      rw [List.filter_cons_of_neg (by simpa using hpast)]
      rfl
    rw [chargedBy_append, hnone]
    exact hspread.upTo nowMs

/-! ### Sequences of calls -/

theorem after_limits (hlimits : l.Limits window budget)
    (hairtimes : ∀ call ∈ calls, call.airtimeMs ≤ u64Max) : (l.after calls).Limits window budget := by
  induction calls generalizing l with
  | nil => exact hlimits
  | cons call calls ih =>
      obtain ⟨hairtime, hairtimes⟩ := List.forall_mem_cons.mp hairtimes
      exact ih (hlimits.perform hairtime) hairtimes

/-- What one call carries over to the longer log, a sequence of calls does. -/
theorem log_after (I : AirtimeLimiter → List Charge → Prop) (allowed : Call → Prop)
    (hstep : ∀ {l call log}, l.Limits window budget → call.airtimeMs ≤ u64Max →
      l.windowStartMs ≤ call.nowMs → allowed call → I l log →
      I (l.perform call) (log ++ [⟨(l.perform call).windowStartMs, call.nowMs, l.charge call⟩]))
    (hlimits : l.Limits window budget) (hairtimes : ∀ call ∈ calls, call.airtimeMs ≤ u64Max)
    (horder : l.InOrder calls) (hallowed : ∀ call ∈ calls, allowed call) (log : List Charge)
    (hlog : I l log) : I (l.after calls) (log ++ charges l calls) := by
  induction calls generalizing l log with
  | nil =>
      rw [charges, List.append_nil]
      exact hlog
  | cons call calls ih =>
      obtain ⟨hairtime, hairtimes⟩ := List.forall_mem_cons.mp hairtimes
      obtain ⟨hcall, hallowed⟩ := List.forall_mem_cons.mp hallowed
      have hnext := hstep hlimits hairtime (horder.start call List.mem_cons_self) hcall hlog
      rw [charges, List.append_cons]
      exact ih (hlimits.perform hairtime) hairtimes (horder.tail hlimits hairtime) hallowed _ hnext

/-! ### Waiting -/

section

variable (hlimits : l.Limits window budget)

include hlimits

theorem after_asks_of_within (hasks : ∀ call ∈ calls, call.Asks)
    (hwithin : ∀ call ∈ calls, l.windowStartMs ≤ call.nowMs ∧ call.nowMs < l.windowStartMs + window) :
    l.after calls = l := by
  induction calls with
  | nil => rfl
  | cons call calls ih =>
      obtain ⟨hask, hasks⟩ := List.forall_mem_cons.mp hasks
      obtain ⟨⟨hstart, hend⟩, hwithin⟩ := List.forall_mem_cons.mp hwithin
      have hcall : l.perform call = l := by
        rw [perform_of_asks hask]
        rcases refresh_cases hlimits hstart with ⟨hrefresh, -⟩ | ⟨-, hended⟩
        · exact hrefresh
        · omega
      have hrest := ih hasks hwithin
      unfold after at hrest ⊢
      rw [List.foldl_cons, hcall, hrest]

theorem refresh_after_asks (hasks : ∀ call ∈ calls, call.Asks) (horder : l.InOrder calls)
    (hbefore : ∀ call ∈ calls, call.nowMs ≤ nowMs) (hempty : (l.refresh nowMs).usedAirtimeMs = 0) :
    (l.after calls).Limits window budget ∧ ((l.after calls).refresh nowMs).usedAirtimeMs = 0 := by
  induction calls generalizing l with
  | nil => exact ⟨hlimits, hempty⟩
  | cons call calls ih =>
      obtain ⟨hask, hasks⟩ := List.forall_mem_cons.mp hasks
      obtain ⟨hcall, hbefore⟩ := List.forall_mem_cons.mp hbefore
      have hstart := horder.start call List.mem_cons_self
      have hperform := perform_of_asks (l := l) hask
      obtain ⟨hlater, hsorted⟩ := List.pairwise_cons.mp horder.sorted
      rcases refresh_cases hlimits hstart with ⟨hrefresh, -⟩ | ⟨hrefresh, -⟩
      · rw [hrefresh] at hperform
        unfold after
        rw [List.foldl_cons, hperform]
        exact ih hlimits hasks
          ⟨fun later hmem => hstart.trans (hlater later hmem), hsorted⟩ hbefore hempty
      · have hlimits' : (l.perform call).Limits window budget := by
          rw [hperform]
          exact hlimits.refresh _
        have hopened : (l.perform call).windowStartMs = call.nowMs := by rw [hperform, hrefresh]
        refine ih hlimits' hasks ⟨fun later hmem => hopened.le.trans (hlater later hmem), hsorted⟩
          hbefore ?_
        rcases refresh_cases hlimits' (hopened.le.trans hcall) with ⟨hagain, -⟩ | ⟨hagain, -⟩
        · rw [hagain, hperform, hrefresh]
        · rw [hagain]

theorem reserve_of_empty (hempty : (l.refresh nowMs).usedAirtimeMs = 0) :
    (l.reserve airtimeMs nowMs).2 = true := by
  rw [reserve_snd, canReserve_iff hlimits, hempty]
  unfold satAdd
  omega

theorem waits_exactly (hstart : l.windowStartMs ≤ nowMs) (hword : nowMs + window ≤ u64Max)
    {atMs : Nat} (hasks : ∀ call ∈ calls, call.Asks)
    (hbetween : ∀ call ∈ calls, nowMs ≤ call.nowMs ∧ call.nowMs ≤ atMs)
    (hsorted : calls.Pairwise fun call call' => call.nowMs ≤ call'.nowMs) (hat : nowMs ≤ atMs) :
    (atMs < nowMs + (l.waitMs airtimeMs nowMs).2 →
      (((l.waitMs airtimeMs nowMs).1.after calls).reserve airtimeMs atMs).2 = false) ∧
    (atMs = nowMs + (l.waitMs airtimeMs nowMs).2 →
      (((l.waitMs airtimeMs nowMs).1.after calls).reserve airtimeMs atMs).2 = true) := by
  have hlimits' := hlimits.refresh nowMs
  have hopened : (l.refresh nowMs).windowStartMs ≤ nowMs ∧
      nowMs < (l.refresh nowMs).windowStartMs + window := by
    have := hlimits.pos
    rcases refresh_cases hlimits hstart with ⟨hrefresh, hend⟩ | ⟨hrefresh, -⟩
    · rw [hrefresh]
      exact ⟨hstart, hend⟩
    · rw [hrefresh]
      exact ⟨le_rfl, by dsimp only; omega⟩
  have hstay : ∀ t, nowMs ≤ t → t < (l.refresh nowMs).windowStartMs + window →
      (l.refresh nowMs).refresh t = l.refresh nowMs := by
    intro t hle hlt
    rcases refresh_cases hlimits' (hopened.1.trans hle) with ⟨hrefresh, -⟩ | ⟨-, hended⟩
    · exact hrefresh
    · omega
  have hsame : atMs < (l.refresh nowMs).windowStartMs + window →
      (l.refresh nowMs).after calls = l.refresh nowMs := fun hlt =>
    after_asks_of_within hlimits' hasks fun call hcall =>
      ⟨hopened.1.trans (hbetween call hcall).1, (hbetween call hcall).2.trans_lt hlt⟩
  have hanswer : atMs < (l.refresh nowMs).windowStartMs + window →
      (((l.waitMs airtimeMs nowMs).1.after calls).reserve airtimeMs atMs).2 =
        (l.canReserve airtimeMs nowMs).2 := by
    intro hlt
    rw [waitMs_fst, hsame hlt, reserve_snd, Bool.eq_iff_iff, canReserve_iff hlimits',
      canReserve_iff hlimits, hstay atMs hat hlt]
  cases hadmitted : (l.canReserve airtimeMs nowMs).2 with
  | true =>
      have hwait : (l.waitMs airtimeMs nowMs).2 = 0 := by
        unfold waitMs
        dsimp only
        rw [hadmitted]
        rfl
      rw [hwait]
      refine ⟨fun hlt => by omega, fun heq => ?_⟩
      rw [hanswer (by omega), hadmitted]
  | false =>
      have hwait : nowMs + (l.waitMs airtimeMs nowMs).2 =
          (l.refresh nowMs).windowStartMs + window := by
        unfold waitMs
        dsimp only
        rw [hadmitted, canReserve_fst, hlimits'.window_eq, if_neg Bool.false_ne_true]
        unfold satAdd
        dsimp only
        omega
      rw [hwait]
      refine ⟨fun hlt => by rw [hanswer hlt, hadmitted], fun heq => ?_⟩
      have horder : (l.refresh nowMs).InOrder calls :=
        ⟨fun call hcall => hopened.1.trans (hbetween call hcall).1, hsorted⟩
      -- at the end of the window the next one opens, empty
      have hempty : ((l.refresh nowMs).refresh atMs).usedAirtimeMs = 0 := by
        rcases refresh_cases hlimits' (hopened.1.trans hat) with ⟨-, hend⟩ | ⟨hrefresh, -⟩
        · omega
        · rw [hrefresh]
      obtain ⟨hafter, hempty⟩ := refresh_after_asks hlimits' hasks horder
        (fun call hcall => (hbetween call hcall).2) hempty
      rw [waitMs_fst]
      exact reserve_of_empty hafter hempty

end

/-! ### The budget is kept -/

structure KeepsBudget (window bps : Nat) (calls : List Call) : Prop where
  accounted : (chargedTo ((new window bps).after calls).windowStartMs
    ((new window bps).charges calls)).sum = ((new window bps).after calls).usedAirtimeMs
  fits : ∀ start, Fits (max (window * bps / 10000) 1)
    (chargedTo start ((new window bps).charges calls))
  upTo : (∀ call ∈ calls, call.airtimeMs ≤ max (window * bps / 10000) 1) →
    ∀ nowMs, chargedBy nowMs ((new window bps).charges calls) ≤
      max (window * bps / 10000) 1 * (1 + nowMs / window)
  refused : ∀ airtimeMs nowMs,
    (((new window bps).after calls).reserve airtimeMs nowMs).2 = false →
      (((new window bps).after calls).reserve airtimeMs nowMs).1 =
        ((new window bps).after calls).refresh nowMs ∧
      (((new window bps).after calls).refresh nowMs).usedAirtimeMs ≤
        ((new window bps).after calls).usedAirtimeMs
  /-- Refused before the time waited for and admitted at it, whatever is asked in between. -/
  waits : ∀ airtimeMs nowMs, (∀ call ∈ calls, call.nowMs ≤ nowMs) → nowMs + window ≤ u64Max →
    ∀ asked atMs, (∀ call ∈ asked, call.Asks) →
      (∀ call ∈ asked, nowMs ≤ call.nowMs ∧ call.nowMs ≤ atMs) →
      (asked.Pairwise fun call call' => call.nowMs ≤ call'.nowMs) → nowMs ≤ atMs →
      (atMs < nowMs + (((new window bps).after calls).waitMs airtimeMs nowMs).2 →
        (((((new window bps).after calls).waitMs airtimeMs nowMs).1.after asked).reserve
          airtimeMs atMs).2 = false) ∧
      (atMs = nowMs + (((new window bps).after calls).waitMs airtimeMs nowMs).2 →
        (((((new window bps).after calls).waitMs airtimeMs nowMs).1.after asked).reserve
          airtimeMs atMs).2 = true)

theorem refresh_used_le (l : AirtimeLimiter) (nowMs : Nat) :
    (l.refresh nowMs).usedAirtimeMs ≤ l.usedAirtimeMs := by
  unfold refresh
  split
  · exact Nat.zero_le _
  · split
    · exact Nat.zero_le _
    · exact le_rfl

theorem new_limits {bps : Nat} (hwindow : 1 ≤ window) (hproduct : window * bps ≤ u64Max) :
    (new window bps).Limits window (max (window * bps / 10000) 1) := by
  refine ⟨rfl, ?_, hwindow, Nat.zero_le _⟩
  unfold budgetMs satMul basisPointsDenominator new
  rw [min_eq_left hproduct]

/-- Whatever is reserved and asked of a limiter in the order of time, it keeps its budget in each
window and over windows, charges nothing it refuses, and tells exactly how long to wait. -/
theorem keeps_budget {bps : Nat} (hwindow : 1 ≤ window) (hproduct : window * bps ≤ u64Max)
    (hwords : ∀ call ∈ calls, call.airtimeMs < 2 ^ 32)
    (hsorted : calls.Pairwise fun call call' => call.nowMs ≤ call'.nowMs) :
    KeepsBudget window bps calls := by
  have hlimits := new_limits hwindow hproduct
  have hairtimes : ∀ call ∈ calls, call.airtimeMs ≤ u64Max := fun call hcall =>
    (hwords call hcall).le.trans (by decide)
  have horder : (new window bps).InOrder calls := ⟨fun _ _ => Nat.zero_le _, hsorted⟩
  have haccounts : Accounts (max (window * bps / 10000) 1) ((new window bps).after calls)
      ([] ++ (new window bps).charges calls) := by
    refine log_after _ (fun _ => True) ?_ hlimits hairtimes horder (fun _ _ => trivial) _ ?_
    · intro l call log hl hairtime hstart _ hlog
      exact hlog.perform hl hairtime hstart
    · exact ⟨rfl, fun c hc => (List.not_mem_nil hc).elim, fun start => Or.inl (Nat.zero_le _)⟩
  rw [List.nil_append] at haccounts
  refine ⟨haccounts.used, haccounts.fits, fun hshort => ?_, fun airtimeMs nowMs hrefused => ?_,
    fun airtimeMs nowMs hbefore hword asked atMs hasks hbetween hasked hat => ?_⟩
  · have hspread : Spread window (max (window * bps / 10000) 1) ((new window bps).after calls)
        ([] ++ (new window bps).charges calls) := by
      refine log_after _ _ ?_ hlimits hairtimes horder hshort _ ?_
      · intro l call log hl hairtime hstart hcall hlog
        exact hlog.perform hl hairtime hstart hcall
      · exact ⟨Nat.zero_le _, Nat.zero_le _, fun _ => Nat.zero_le _⟩
    exact hspread.upTo
  · exact ⟨reserve_of_refused hrefused, refresh_used_le _ _⟩
  · have hstart : ((new window bps).after calls).windowStartMs ≤ nowMs := by
      refine log_after (fun l _ => l.windowStartMs ≤ nowMs) _ ?_ hlimits hairtimes horder hbefore []
        (Nat.zero_le _)
      intro l call log hl hairtime hstart hcall _
      exact (perform_start_le hl hairtime hstart).trans hcall
    exact waits_exactly (after_limits hlimits hairtimes) hstart hword hasks hbetween hasked hat

private def crowded : List Call :=
  [.reserve 300 0, .reserve 300 10, .waitMs 300 10, .reserve 900 1000, .canReserve 1 1500]

/-- Half of every second: the second frame is refused and has 990 ms to wait, and a frame longer than
the budget has a window to itself. -/
theorem keeps_budget_crowded :
    KeepsBudget 1000 5000 crowded ∧
      ((new 1000 5000).charges crowded).map (·.airtimeMs) = [300, 0, 0, 900, 0] ∧
      (((new 1000 5000).after [.reserve 300 0]).waitMs 300 10).2 = 990 :=
  ⟨keeps_budget (by decide) (by decide) (by decide) (by decide), by decide, by decide⟩

end AirtimeLimiter

end ReticulumLite
