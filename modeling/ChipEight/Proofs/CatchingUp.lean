import ChipEight.Proofs.Reachable

/-!
# Catching up

An update takes the time of one tick after the other off the backlog, in single precision, and
runs a tick for each.  Single precision does not say that this ever comes to an end: an
infinite backlog is never used up.  What ends an update is the number of its ticks.

`Pacer.CatchesUp` is the loop of an update with no bound but the one that it tests for itself.
It comes to exactly one end, behind at most `maxTicksPerUpdate` ticks (`catchesUp_catchUp`,
`CatchesUp.unique`).

`Pacer.AtRound` is the invariant of the loop: in front of each round the pacer is the one
before the update, some ticks later, with as many steps taken off its backlog.  Each round
keeps it (`AtRound.next`), so it leads to one of three ends (`Pacer.Stops`): a tick failed, no
further tick is due, or a tick is due that may not be run.
-/

namespace ChipEight

namespace Pacer

variable {p q after : Pacer} {last : Outcome} {n k : Nat} {result : Except Fault Outcome × Pacer}

/-! ## The loop -/

/-- The loop of an update.  In front of a round `n` ticks were run, with `last` as the result
of the last, and the loop ends behind `k` ticks with a result and a pacer. -/
inductive CatchesUp : Nat → Outcome → Pacer → Nat → Except Fault Outcome × Pacer → Prop where
  | rest {n : Nat} {last : Outcome} {p : Pacer} (hb : ¬ timeStep ≤ p.backlog) :
      CatchesUp n last p n (.ok last, p)
  | drop {n : Nat} {last : Outcome} {p : Pacer} (hb : timeStep ≤ p.backlog)
      (hn : n = maxTicksPerUpdate) : CatchesUp n last p n (.ok last, { p with backlog := 0.0 })
  | fail {n : Nat} {last : Outcome} {p after : Pacer} {f : Fault} (hb : timeStep ≤ p.backlog)
      (hn : n ≠ maxTicksPerUpdate)
      (ht : { p with backlog := p.backlog - timeStep }.tick = (.error f, after)) :
      CatchesUp n last p (n + 1) (.error f, after)
  | next {n k : Nat} {last o : Outcome} {p after : Pacer} {result : Except Fault Outcome × Pacer}
      (hb : timeStep ≤ p.backlog) (hn : n ≠ maxTicksPerUpdate)
      (ht : { p with backlog := p.backlog - timeStep }.tick = (.ok o, after))
      (h : CatchesUp (n + 1) o after k result) : CatchesUp n last p k result

/-- The loop comes to an end, with the ticks that it may still run. -/
theorem catchesUp_catchUp (left : Nat) (last : Outcome) (p : Pacer)
    (hn : n + left = maxTicksPerUpdate) :
    ∃ k ≤ maxTicksPerUpdate, CatchesUp n last p k (p.catchUp left last) := by
  induction left generalizing n last p with
  | zero =>
      have hmax : n = maxTicksPerUpdate := hn
      rw [catchUp]
      by_cases hb : timeStep ≤ p.backlog
      · rw [if_pos hb]
        exact ⟨n, Nat.le_of_eq hmax, .drop hb hmax⟩
      · rw [if_neg hb]
        exact ⟨n, Nat.le_of_eq hmax, .rest hb⟩
  | succ left ih =>
      rw [catchUp]
      by_cases hb : timeStep ≤ p.backlog
      · rw [if_pos hb]
        have hne : n ≠ maxTicksPerUpdate := by omega
        cases ht : { p with backlog := p.backlog - timeStep }.tick with
        | mk result after =>
            cases result with
            | error f => exact ⟨n + 1, by omega, .fail hb hne ht⟩
            | ok o =>
                obtain ⟨k, hk, hloop⟩ := ih (n := n + 1) o after (by omega)
                exact ⟨k, hk, .next hb hne ht hloop⟩
      · rw [if_neg hb]
        exact ⟨n, by omega, .rest hb⟩

/-- The loop comes to one end only. -/
theorem CatchesUp.unique {j : Nat} {result' : Except Fault Outcome × Pacer}
    (h : CatchesUp n last p k result) (h' : CatchesUp n last p j result') :
    j = k ∧ result' = result := by
  -- the tests of a round exclude each other, and a tick has one result
  induction h with
  | rest hb =>
      cases h' with
      | rest hb' => exact ⟨rfl, rfl⟩
      | drop hb' hn' => exact absurd hb' hb
      | fail hb' hn' ht' => exact absurd hb' hb
      | next hb' hn' ht' h' => exact absurd hb' hb
  | drop hb hn =>
      cases h' with
      | rest hb' => exact absurd hb hb'
      | drop hb' hn' => exact ⟨rfl, rfl⟩
      | fail hb' hn' ht' => exact absurd hn hn'
      | next hb' hn' ht' h' => exact absurd hn hn'
  | fail hb hn ht =>
      cases h' with
      | rest hb' => exact absurd hb hb'
      | drop hb' hn' => exact absurd hn' hn
      | fail hb' hn' ht' =>
          rw [ht] at ht'
          cases ht'
          exact ⟨rfl, rfl⟩
      | next hb' hn' ht' h' =>
          rw [ht] at ht'
          cases ht'
  | next hb hn ht h ih =>
      cases h' with
      | rest hb' => exact absurd hb hb'
      | drop hb' hn' => exact absurd hn' hn
      | fail hb' hn' ht' =>
          rw [ht] at ht'
          cases ht'
      | next hb' hn' ht' h' =>
          rw [ht] at ht'
          cases ht'
          exact ih h'

/-! ## Updates for which no tick is due -/

/-- No tick is run before a sixtieth of a second has passed. -/
theorem update_of_not_le {p : Pacer} {seconds : Float32}
    (h : ¬ timeStep ≤ p.backlog + seconds) :
    p.update seconds = (.ok .proceed, { p with backlog := p.backlog + seconds }) := by
  rw [update, catchUp.eq_def]
  exact if_neg h

/-- When nothing is left to be run and no time passes, nothing is run. -/
theorem update_zero {p : Pacer} (h : p.backlog = 0.0) :
    p.update 0.0 = (.ok .proceed, p) := by
  have hzero : (0.0 + 0.0 : Float32) = 0.0 := by decide +kernel
  have hnone : ¬ timeStep ≤ p.backlog + 0.0 := by
    rw [h]
    decide +kernel
  rw [update_of_not_le hnone, h, hzero, ← h]

/-! ## Ticks in a row -/

/-- The pacer behind `k` ticks. -/
def ticked (p : Pacer) : Nat → Pacer
  | 0 => p
  | k + 1 => (p.ticked k).tick.2

/-- The result of the last of `k` ticks.  If there is none, nothing stands in the way. -/
def lastTick (p : Pacer) : Nat → Except Fault Outcome
  | 0 => .ok .proceed
  | k + 1 => (p.ticked k).tick.1

/-- What is left of a backlog when the time of `k` ticks is taken off, one after the other. -/
def owed (backlog : Float32) : Nat → Float32
  | 0 => backlog
  | k + 1 => owed backlog k - timeStep

theorem rate_ticked (p : Pacer) (k : Nat) : (p.ticked k).rate = p.rate := by
  induction k with
  | zero => rfl
  | succ k ih => exact ih

theorem coherent_ticked (h : p.machine.Coherent) (k : Nat) : (p.ticked k).machine.Coherent := by
  induction k with
  | zero => exact h
  | succ k ih => exact coherent_tick ih

/-! ## The rounds of an update -/

/-- What holds in front of a round of the loop, where `q` is the pacer before the update and
`backlog` the time that it has to run.  All ticks until then were due and did not fail. -/
structure AtRound (q : Pacer) (backlog : Float32) (n : Nat) (last : Outcome) (p : Pacer) : Prop where
  eq_ticked : p = { q.ticked n with backlog := owed backlog n }
  last_eq : q.lastTick n = .ok last
  due : ∀ j < n, timeStep ≤ owed backlog j
  succeeds : ∀ j < n, ∃ o, q.lastTick j = .ok o

/-- How the loop ends behind `k` ticks. -/
inductive Stops (q : Pacer) (backlog : Float32) (k : Nat) : Except Fault Outcome × Pacer → Prop where
  | failed {f : Fault} (h : q.lastTick k = .error f) :
      Stops q backlog k (.error f, { q.ticked k with backlog := owed backlog k })
  | rested {o : Outcome} (h : q.lastTick k = .ok o) (hb : ¬ timeStep ≤ owed backlog k) :
      Stops q backlog k (.ok o, { q.ticked k with backlog := owed backlog k })
  | dropped {o : Outcome} (h : q.lastTick k = .ok o) (hb : timeStep ≤ owed backlog k)
      (hk : k = maxTicksPerUpdate) :
      Stops q backlog k (.ok o, { q.ticked k with backlog := 0.0 })

namespace AtRound

variable {backlog : Float32} {o : Outcome}

theorem start (p : Pacer) (backlog : Float32) :
    AtRound p backlog 0 .proceed { p with backlog } :=
  ⟨rfl, rfl, fun j hj => absurd hj (Nat.not_lt_zero j), fun j hj => absurd hj (Nat.not_lt_zero j)⟩

/-- A tick does not look at the backlog. -/
theorem tick_eq (h : AtRound q backlog n last p) :
    { p with backlog := p.backlog - timeStep }.tick =
      (q.lastTick (n + 1), { q.ticked (n + 1) with backlog := owed backlog (n + 1) }) := by
  rw [h.eq_ticked]
  rfl

theorem due_succ (h : AtRound q backlog n last p) (hb : timeStep ≤ p.backlog) :
    ∀ j < n + 1, timeStep ≤ owed backlog j := by
  rw [h.eq_ticked] at hb
  intro j hj
  rcases Nat.lt_succ_iff_lt_or_eq.mp hj with hj | rfl
  · exact h.due j hj
  · exact hb

theorem succeeds_succ (h : AtRound q backlog n last p) : ∀ j < n + 1, ∃ o, q.lastTick j = .ok o := by
  intro j hj
  rcases Nat.lt_succ_iff_lt_or_eq.mp hj with hj | rfl
  · exact h.succeeds j hj
  · exact ⟨last, h.last_eq⟩

/-- A round that does not end the loop leads to the next. -/
theorem next (h : AtRound q backlog n last p) (hb : timeStep ≤ p.backlog)
    (ht : { p with backlog := p.backlog - timeStep }.tick = (.ok o, after)) :
    AtRound q backlog (n + 1) o after := by
  rw [h.tick_eq] at ht
  obtain ⟨hlast, rfl⟩ := Prod.mk.inj ht
  exact ⟨rfl, hlast, h.due_succ hb, h.succeeds_succ⟩

/-- From every round the loop comes to one of its ends, and all ticks but the last were due and
did not fail. -/
theorem stops (h : AtRound q backlog n last p) (hloop : CatchesUp n last p k result) :
    Stops q backlog k result ∧ (∀ j < k, timeStep ≤ owed backlog j) ∧
      ∀ j < k, ∃ o, q.lastTick j = .ok o := by
  -- along the loop: a round that goes on hands the invariant to the next
  induction hloop with
  | rest hb =>
      have hleft := h.eq_ticked
      subst hleft
      exact ⟨.rested h.last_eq hb, h.due, h.succeeds⟩
  | drop hb hn =>
      have hleft := h.eq_ticked
      subst hleft
      exact ⟨.dropped h.last_eq hb hn, h.due, h.succeeds⟩
  | fail hb hn ht =>
      rw [h.tick_eq] at ht
      obtain ⟨hlast, rfl⟩ := Prod.mk.inj ht
      exact ⟨.failed hlast, h.due_succ hb, h.succeeds_succ⟩
  | next hb hn ht hloop ih => exact ih (h.next hb ht)

end AtRound

/-- An update runs some ticks, all but the last without a failure, and then stops. -/
theorem update_stops (p : Pacer) (seconds : Float32) :
    ∃ k ≤ maxTicksPerUpdate,
      CatchesUp 0 .proceed { p with backlog := p.backlog + seconds } k (p.update seconds) ∧
        Stops p (p.backlog + seconds) k (p.update seconds) ∧
          (∀ j < k, timeStep ≤ owed (p.backlog + seconds) j) ∧
            ∀ j < k, ∃ o, p.lastTick j = .ok o := by
  obtain ⟨k, hk, hloop⟩ := catchesUp_catchUp (n := 0) maxTicksPerUpdate .proceed
    { p with backlog := p.backlog + seconds } (Nat.zero_add _)
  exact ⟨k, hk, hloop, (AtRound.start p (p.backlog + seconds)).stops hloop⟩

end Pacer

/-- Whatever the backlog and the time that passes, the loop of an update comes to exactly one
end, behind at most four ticks.  The machine is then the one behind as many ticks in a row, all
of which were due and all but the last of which did not fail.  If the last one failed, the
update fails with it, and the backlog is what these ticks have left of it.  Otherwise the result
is that of the last tick.  The backlog is then what the ticks have left of it, and no tick is due,
or four ticks were run and a tick is due, and the backlog is zero. -/
theorem update_stops_within_four_ticks (p : Pacer) (seconds : Float32) :
    let start := { p with backlog := p.backlog + seconds }
    let result := (p.update seconds).1
    let after := (p.update seconds).2
    ∃ k ≤ 4,
      (∀ j r, Pacer.CatchesUp 0 .proceed start j r ↔ j = k ∧ r = p.update seconds) ∧
      after.machine = (p.ticked k).machine ∧ after.rate = p.rate ∧
      (∀ j < k, timeStep ≤ Pacer.owed start.backlog j ∧ ∃ o, p.lastTick j = .ok o) ∧
      ((∃ f, p.lastTick k = .error f ∧ result = .error f ∧
          after.backlog = Pacer.owed start.backlog k) ∨
        ∃ o, p.lastTick k = .ok o ∧ result = .ok o ∧
          (¬ timeStep ≤ Pacer.owed start.backlog k ∧
              after.backlog = Pacer.owed start.backlog k ∨
            k = 4 ∧ timeStep ≤ Pacer.owed start.backlog k ∧ after.backlog = 0.0)) := by
  intro start result after
  obtain ⟨k, hk, hloop, hstops, hdue, hsucceeds⟩ := p.update_stops seconds
  have hone : ∀ j r, Pacer.CatchesUp 0 .proceed start j r ↔ j = k ∧ r = p.update seconds := by
    intro j r
    constructor
    · exact hloop.unique
    · rintro ⟨rfl, rfl⟩
      exact hloop
  have hrate := p.rate_ticked k
  have hticks : ∀ j < k, timeStep ≤ Pacer.owed start.backlog j ∧ ∃ o, p.lastTick j = .ok o :=
    fun j hj => ⟨hdue j hj, hsucceeds j hj⟩
  refine ⟨k, hk, hone, ?_⟩
  rcases hu : p.update seconds with ⟨r, u⟩
  rw [hu] at hstops
  have hresult : result = r := congrArg Prod.fst hu
  have hafter : after = u := congrArg Prod.snd hu
  rw [hresult, hafter]
  cases hstops with
  | failed h => exact ⟨rfl, hrate, hticks, Or.inl ⟨_, h, rfl, rfl⟩⟩
  | rested h hb => exact ⟨rfl, hrate, hticks, Or.inr ⟨_, h, rfl, Or.inl ⟨hb, rfl⟩⟩⟩
  | dropped h hb hfour => exact ⟨rfl, hrate, hticks, Or.inr ⟨_, h, rfl, Or.inr ⟨hfour, hb, rfl⟩⟩⟩

/-- An infinite backlog is due for ever, and what is no number is never due. -/
example : timeStep ≤ Pacer.owed (1.0 / 0.0) 5 ∧ ¬ timeStep ≤ Pacer.owed (0.0 / 0.0) 0 := by
  decide +kernel

end ChipEight
