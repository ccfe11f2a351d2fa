import SnowballLtp.Dma.TestResources

/-!
# The test cases that may lose something

The tests 1, 2 and 6 to 9 create their workqueue before the buffer list and jump behind
`destroy_workqueue` when the list gets no channel. The tests 22 to 25 release their channel in the
last of four calls, which is skipped once a comparison has failed. Each piece of a test case is
followed relative to the handles in front of it, in the form `s.GrownBy own t.held`.

## Main definitions

* `Answers.Refused`, `Answers.Passes`.

## Main results

* `createSinglethreadWorkqueue_inv`, `dmatestBuflistCreate_inv`, `dmatestBuflistDestroy_inv`.
* `tcBuflistTest_inv`, `untilFailure_inv`: the tests of one buffer list.
* `tc22To25_inv`: the channel that is kept in a static variable.
-/

namespace SnowballLtp.Dma.TestResources

open SnowballLtp.StateT

variable {a : Answers} {s : Holding Resource} {own : List (Handle Resource)} {t u : TestModule}

/-! ### The requests -/

theorem release_inv {h : Handle Resource} {x : Unit} (hr : release h t = some (x, u))
    (hg : s.GrownBy (h :: own) t.held) :
    ∃ held, u = { t with held := held } ∧ s.GrownBy own held := by
  obtain ⟨held, hheld, hu⟩ := Option.map_eq_some_iff.mp hr
  exact ⟨held, (Prod.mk.inj hu).2.symm, hg.release hheld⟩

theorem acquire_inv {kind : Resource} {granted : Bool} {x : Option (Handle Resource)}
    (h : acquire kind granted t = some (x, u)) (hg : s.GrownBy own t.held) :
    ∃ held, u = { t with held := held } ∧ x.isSome = granted ∧
      s.GrownBy (x.toList ++ own) held := by
  cases granted with
  | true =>
    obtain ⟨rfl, rfl⟩ := Prod.mk.inj (Option.some.inj h)
    exact ⟨_, rfl, rfl, hg.acquire kind⟩
  | false =>
    obtain ⟨rfl, rfl⟩ := Prod.mk.inj (Option.some.inj h)
    exact ⟨_, rfl, rfl, hg⟩

/-- How many answers of each kind have been used between `t` and `u`. -/
structure Asked (t u : TestModule) (wq chan cmp : ℕ) : Prop where
  nWq : u.nWq = t.nWq + wq
  nChan : u.nChan = t.nChan + chan
  nCmp : u.nCmp = t.nCmp + cmp

theorem createSinglethreadWorkqueue_inv {x : Option (Handle Resource)}
    (h : createSinglethreadWorkqueue a t = some (x, u)) (hg : s.GrownBy own t.held) :
    ∃ held, u = { t with held := held, nWq := t.nWq + 1 } ∧ x.isSome = a.wq t.nWq ∧
      s.GrownBy (x.toList ++ own) held :=
  acquire_inv (t := { t with nWq := t.nWq + 1 }) h hg

theorem dmaRequestChannel_inv {x : Option (Handle Resource)}
    (h : dmaRequestChannel a t = some (x, u)) (hg : s.GrownBy own t.held) :
    ∃ held, u = { t with held := held, nChan := t.nChan + 1 } ∧ x.isSome = a.chan t.nChan ∧
      s.GrownBy (x.toList ++ own) held :=
  acquire_inv (t := { t with nChan := t.nChan + 1 }) h hg

theorem destroyWorkqueue_inv {wq : Option (Handle Resource)} {x : Unit}
    (h : destroyWorkqueue wq t = some (x, u)) (hg : s.GrownBy (wq.toList ++ own) t.held) :
    ∃ held, u = { t with held := held } ∧ s.GrownBy own held := by
  cases wq with
  | none => exact absurd h (Option.some_ne_none _).symm
  | some wq => exact release_inv h hg

theorem queueWork_inv {wq : Option (Handle Resource)} {x : Unit}
    (h : queueWork wq t = some (x, u)) : u = t ∧ wq.isSome = true := by
  cases wq with
  | none => exact absurd h (Option.some_ne_none _).symm
  | some wq => exact ⟨(pure_inv h).2, rfl⟩

theorem waitForCompletion_inv {x : Unit} (h : waitForCompletion a t = some (x, u)) : u = t := by
  unfold waitForCompletion at h
  split at h
  · exact (pure_inv h).2
  · exact absurd h (Option.some_ne_none _).symm

theorem compareData_inv {err x : ℤ} (h : compareData a err t = some (x, u)) :
    u = { t with nCmp := t.nCmp + 1 } ∧ x = if a.cmp t.nCmp then 0 else err := by
  obtain ⟨rfl, rfl⟩ := Prod.mk.inj (Option.some.inj h)
  exact ⟨rfl, rfl⟩

theorem dmatestSizelistSet_inv {bf x : BuflistHandle}
    (h : dmatestSizelistSet bf t = some (x, u)) :
    u = t ∧ bf.created = true ∧ x = { bf with sized := true } := by
  unfold dmatestSizelistSet at h
  split at h
  case isTrue hcreated => exact ⟨(pure_inv h).2, hcreated, (pure_inv h).1⟩
  case isFalse => exact absurd h (Option.some_ne_none _).symm

theorem forSizes_inv {bf : BuflistHandle} {x : Unit} (h : forSizes bf t = some (x, u)) :
    u = t ∧ bf.sized = true := by
  unfold forSizes at h
  split at h
  case isTrue hsized => exact ⟨(pure_inv h).2, hsized⟩
  case isFalse => exact absurd h (Option.some_ne_none _).symm

/-- A new buffer list: with the channel it is created, without one it is an error. -/
theorem dmatestBuflistCreate_inv {err : ℤ} {bf : BuflistHandle}
    (h : dmatestBuflistCreate a none t = some ((err, bf), u)) (hg : s.GrownBy own t.held) :
    ∃ held, u = { t with held := held, nChan := t.nChan + 1 } ∧
      s.GrownBy (bf.dmaChan.toList ++ own) held ∧ bf.sized = false ∧
      (err = 0 ∧ a.chan t.nChan = true ∧ bf.created = true ∨
        err = -einval ∧ a.chan t.nChan = false ∧ bf.created = false ∧ bf.dmaChan = none) := by
  obtain ⟨chan, v, hchan, h⟩ := bind_inv h
  obtain ⟨held, rfl, hsome, hg⟩ := dmaRequestChannel_inv hchan hg
  cases chan with
  | none =>
    obtain ⟨hbf, rfl⟩ := pure_inv h
    obtain ⟨rfl, rfl⟩ := Prod.mk.inj hbf
    exact ⟨held, rfl, hg, rfl, Or.inr ⟨rfl, hsome.symm, rfl, rfl⟩⟩
  | some chan =>
    obtain ⟨hbf, rfl⟩ := pure_inv h
    obtain ⟨rfl, rfl⟩ := Prod.mk.inj hbf
    exact ⟨held, rfl, hg, rfl, Or.inl ⟨rfl, hsome.symm, rfl⟩⟩

theorem dmatestBuflistDestroy_inv {bf : BuflistHandle} {x : Unit}
    (h : dmatestBuflistDestroy bf t = some (x, u))
    (hg : s.GrownBy (bf.dmaChan.toList ++ own) t.held) :
    ∃ held, u = { t with held := held } ∧ s.GrownBy own held ∧ bf.sized = true := by
  obtain ⟨_, v, hv, h⟩ := bind_inv h
  obtain ⟨rfl, hsized⟩ := forSizes_inv h
  cases hchan : bf.dmaChan with
  | none =>
    rw [hchan] at hv hg
    obtain ⟨-, rfl⟩ := pure_inv hv
    exact ⟨_, rfl, hg, hsized⟩
  | some chan =>
    rw [hchan] at hv hg
    obtain ⟨held, rfl, hg⟩ := release_inv hv hg
    exact ⟨_, rfl, hg, hsized⟩

/-! ### Tests of one buffer list -/

/-- The workqueue is created and the channel refused. -/
def Answers.Refused (a : Answers) (k : ℕ) : Prop := a.wq k = true ∧ a.chan k = false

/-- Everything is granted, and the data agree. -/
def Answers.Passes (a : Answers) (k : ℕ) : Prop :=
  a.wq k = true ∧ a.chan k = true ∧ a.cmp k = true

/-- A test of one buffer list gets its workqueue and its channel and gives them back, or it is
refused the channel, looks at the error, and loses the workqueue that it may have. -/
theorem tcBuflistTest_inv {looksAtErr : Bool} {err : ℤ}
    (h : tcBuflistTest a looksAtErr t = some (err, u)) (hg : s.GrownBy own t.held) :
    (a.wq t.nWq = true ∧ a.chan t.nChan = true ∧ (err = 0 ↔ a.cmp t.nCmp = true) ∧
        s.GrownBy own u.held ∧ Asked t u 1 1 1) ∨
      (looksAtErr = true ∧ a.chan t.nChan = false ∧ err ≠ 0 ∧
        ∃ lost, s.GrownBy (lost ++ own) u.held ∧ (lost ≠ [] ↔ a.wq t.nWq = true)) := by
  obtain ⟨wq, v, hv, h⟩ := bind_inv h
  obtain ⟨held₁, rfl, hwq, hg⟩ := createSinglethreadWorkqueue_inv hv hg
  obtain ⟨⟨err₁, bf⟩, v, hv, h⟩ := bind_inv h
  obtain ⟨held₂, rfl, hg, -, hres⟩ := dmatestBuflistCreate_inv hv hg
  dsimp only at h hres
  rcases hres with ⟨rfl, hchan, -⟩ | ⟨rfl, hchan, hcreated, hnone⟩
  · left
    rw [if_neg (by simp)] at h
    obtain ⟨bf', v, hv, h⟩ := bind_inv h
    obtain ⟨rfl, -, rfl⟩ := dmatestSizelistSet_inv hv
    obtain ⟨_, v, hv, h⟩ := bind_inv h
    obtain ⟨rfl, -⟩ := forSizes_inv hv
    obtain ⟨_, v, hv, h⟩ := bind_inv h
    obtain ⟨rfl, hsome⟩ := queueWork_inv hv
    obtain ⟨_, v, hv, h⟩ := bind_inv h
    obtain rfl := waitForCompletion_inv hv
    obtain ⟨res, v, hv, h⟩ := bind_inv h
    obtain ⟨rfl, hcmp⟩ := compareData_inv hv
    obtain ⟨_, v, hv, h⟩ := bind_inv h
    -- the workqueue, acquired first, is also the first to go
    obtain ⟨held₃, rfl, hg⟩ := destroyWorkqueue_inv hv (hg.perm (List.perm_append_comm_assoc _ _ _))
    obtain ⟨_, v, hv, h⟩ := bind_inv h
    obtain ⟨held₄, rfl, hg, -⟩ := dmatestBuflistDestroy_inv hv hg
    obtain ⟨rfl, rfl⟩ := pure_inv h
    refine ⟨hwq ▸ hsome, hchan, ?_, hg, rfl, rfl, rfl⟩
    rw [hcmp]
    split <;> simp_all
  · right
    cases looksAtErr with
    | true =>
      rw [if_pos (by simp [einval])] at h
      obtain ⟨rfl, rfl⟩ := pure_inv h
      refine ⟨rfl, hchan, by simp [einval], wq.toList, by simpa [hnone] using hg, ?_⟩
      rw [← hwq]
      cases wq <;> simp
    | false =>
      rw [if_neg (by simp)] at h
      obtain ⟨_, v, hv, h⟩ := bind_inv h
      obtain ⟨-, hcreated', -⟩ := dmatestSizelistSet_inv hv
      exact absurd (hcreated.symm.trans hcreated') Bool.false_ne_true

/-- A sequence of rounds of a test that looks at the error, which begins with the `k`-th answers:
it loses a workqueue in the first round that does not pass, if that one is refused its channel. -/
theorem untilFailure_inv {n k : ℕ} {err : ℤ}
    (h : untilFailure (tcBuflistTest a true) n t = some (err, u)) (hg : s.GrownBy own t.held)
    (hk : t.nWq = k ∧ t.nChan = k ∧ t.nCmp = k) :
    ∃ lost, s.GrownBy (lost ++ own) u.held ∧
      (lost ≠ [] ↔ ∃ j < n, (∀ i < j, a.Passes (k + i)) ∧ a.Refused (k + j)) := by
  induction n generalizing t k with
  | zero =>
    obtain ⟨rfl, rfl⟩ := pure_inv h
    exact ⟨[], hg, by simp⟩
  | succ n ih =>
    obtain ⟨res, v, hv, h⟩ := bind_inv h
    obtain ⟨hkWq, hkChan, hkCmp⟩ := hk
    have htest := tcBuflistTest_inv hv hg
    rw [hkWq, hkChan, hkCmp] at htest
    rcases htest with ⟨hwq, hchan, hres, hg, hasked⟩ | ⟨-, hchan, hres, lost, hg, hlost⟩
    · by_cases hzero : res = 0
      · rw [if_neg (not_not.mpr hzero)] at h
        have hpass : a.Passes k := ⟨hwq, hchan, hres.mp hzero⟩
        obtain ⟨lost, hg, hlost⟩ := ih h hg (k := k + 1)
          ⟨by rw [hasked.nWq, hkWq], by rw [hasked.nChan, hkChan], by rw [hasked.nCmp, hkCmp]⟩
        refine ⟨lost, hg, hlost.trans ⟨?_, ?_⟩⟩
        · rintro ⟨j, hj, hpasses, hrefused⟩
          refine ⟨j + 1, Nat.succ_lt_succ hj, fun i hi => ?_, ?_⟩
          swap
          · rwa [Nat.add_comm j, ← Nat.add_assoc]
          cases i with
          | zero => exact hpass
          | succ i =>
            rw [Nat.add_comm i, ← Nat.add_assoc]
            exact hpasses i (Nat.lt_of_succ_lt_succ hi)
        · rintro ⟨j, hj, hpasses, hrefused⟩
          cases j with
          | zero => exact absurd (hchan.symm.trans hrefused.2) Bool.false_ne_true.symm
          | succ j =>
            rw [Nat.add_comm j, ← Nat.add_assoc] at hrefused
            refine ⟨j, Nat.lt_of_succ_lt_succ hj, fun i hi => ?_, hrefused⟩
            rw [Nat.add_assoc, Nat.add_comm 1]
            exact hpasses (i + 1) (Nat.succ_lt_succ hi)
      · rw [if_pos hzero] at h
        obtain ⟨rfl, rfl⟩ := pure_inv h
        refine ⟨[], hg, iff_of_false (by simp) ?_⟩
        rintro ⟨j, -, hpasses, hrefused⟩
        cases j with
        | zero => exact absurd (hchan.symm.trans hrefused.2) Bool.false_ne_true.symm
        | succ j => exact hzero (hres.mpr (hpasses 0 (Nat.succ_pos j)).2.2)
    · rw [if_pos hres] at h
      obtain ⟨rfl, rfl⟩ := pure_inv h
      refine ⟨lost, hg, hlost.trans ⟨fun hwq => ⟨0, Nat.succ_pos n, by simp, hwq, hchan⟩, ?_⟩⟩
      rintro ⟨j, -, hpasses, hrefused⟩
      cases j with
      | zero => exact hrefused.1
      | succ j => exact (hpasses 0 (Nat.succ_pos j)).1

/-! ### The channel that is kept in a static variable -/

theorem tc22Req_inv {err : ℤ} (h : tc22Req a t = some (err, u)) (hg : s.GrownBy own t.held) :
    u.nCmp = t.nCmp ∧ s.GrownBy (u.tc2225Chan.toList ++ own) u.held ∧
      u.tc2225Chan.isSome = a.chan t.nChan ∧ (err = 0 ↔ a.chan t.nChan = true) := by
  obtain ⟨chan, v, hv, h⟩ := bind_inv h
  obtain ⟨held, rfl, hchan, hg⟩ := dmaRequestChannel_inv hv hg
  obtain ⟨_, v, hv, h⟩ := bind_inv h
  obtain rfl := modify_inv hv
  rw [← hchan]
  cases chan with
  | none =>
    obtain ⟨rfl, rfl⟩ := pure_inv h
    exact ⟨rfl, hg, rfl, by simp [einval]⟩
  | some chan =>
    obtain ⟨rfl, rfl⟩ := pure_inv h
    exact ⟨rfl, hg, rfl, by simp⟩

/-- A comparison that has the channel. -/
theorem tc23NoIrq_inv {err : ℤ} (h : tc23NoIrq a t = some (err, u))
    (hchan : t.tc2225Chan.isSome = true) :
    u = { t with nCmp := t.nCmp + 1 } ∧ (err = 0 ↔ a.cmp t.nCmp = true) := by
  obtain ⟨r, v, hv, hrest⟩ := bind_inv h
  obtain ⟨rfl, rfl⟩ := get_inv hv
  rw [if_neg (by simpa using Option.isSome_iff_ne_none.mp hchan)] at hrest
  obtain ⟨rfl, rfl⟩ := compareData_inv hrest
  exact ⟨rfl, by split <;> simp_all [einval]⟩

theorem tc24Irq_inv {err : ℤ} (h : tc24Irq a t = some (err, u))
    (hchan : t.tc2225Chan.isSome = true) :
    u = { t with nCmp := t.nCmp + 1 } ∧ (err = 0 ↔ a.cmp t.nCmp = true) := by
  obtain ⟨r, v, hv, hrest⟩ := bind_inv h
  obtain ⟨rfl, rfl⟩ := get_inv hv
  rw [if_neg (by simpa using Option.isSome_iff_ne_none.mp hchan)] at hrest
  obtain ⟨_, w, hw, hcmp⟩ := bind_inv hrest
  obtain rfl := waitForCompletion_inv hw
  obtain ⟨rfl, rfl⟩ := compareData_inv hcmp
  exact ⟨rfl, by split <;> simp_all [einval]⟩

theorem tc25Free_inv {err : ℤ} (h : tc25Free t = some (err, u))
    (hg : s.GrownBy (t.tc2225Chan.toList ++ own) t.held) : s.GrownBy own u.held := by
  obtain ⟨r, v, hv, hrest⟩ := bind_inv h
  obtain ⟨rfl, rfl⟩ := get_inv hv
  cases hchan : v.tc2225Chan with
  | none =>
    rw [hchan] at hrest hg
    obtain ⟨-, rfl⟩ := pure_inv hrest
    exact hg
  | some chan =>
    rw [hchan] at hrest hg
    obtain ⟨_, w, hw, hrest⟩ := bind_inv hrest
    obtain ⟨held, rfl, hg⟩ := release_inv hw hg
    obtain ⟨_, w, hw, hrest⟩ := bind_inv hrest
    obtain rfl := modify_inv hw
    obtain ⟨-, rfl⟩ := pure_inv hrest
    exact hg

theorem ifOk_inv {err res : ℤ} {test : TestCase ℤ} (h : ifOk err test t = some (res, u)) :
    err = 0 ∧ test t = some (res, u) ∨ err ≠ 0 ∧ res = err ∧ u = t := by
  unfold ifOk at h
  split at h
  case isTrue herr => exact Or.inl ⟨herr, h⟩
  case isFalse herr => exact Or.inr ⟨herr, pure_inv h⟩

/-- The tests 22 to 25 lose the channel exactly when a comparison fails. -/
theorem tc22To25_inv {err : ℤ} (h : tc22To25 a t = some (err, u)) (hg : s.GrownBy own t.held) :
    ∃ lost, s.GrownBy (lost ++ own) u.held ∧
      (lost ≠ [] ↔ a.chan t.nChan = true ∧
        ¬ (a.cmp t.nCmp = true ∧ a.cmp (t.nCmp + 1) = true)) := by
  obtain ⟨err₁, t₁, h₁, hrest⟩ := bind_inv h
  obtain ⟨err₂, t₂, h₂, hrest⟩ := bind_inv hrest
  obtain ⟨err₃, t₃, h₃, h₄⟩ := bind_inv hrest
  obtain ⟨hcmp, hg, hsome, herr₁⟩ := tc22Req_inv h₁ hg
  have hlost : t₁.tc2225Chan.toList ≠ [] ↔ a.chan t.nChan = true := by
    rw [← hsome]
    cases t₁.tc2225Chan <;> simp
  by_cases hchan : a.chan t.nChan = true
  · have hhas := hsome.trans hchan
    obtain ⟨-, h₂⟩ | ⟨hne, -⟩ := ifOk_inv h₂
    swap
    · exact absurd (herr₁.mpr hchan) hne
    obtain ⟨rfl, herr₂⟩ := tc23NoIrq_inv h₂ hhas
    rw [hcmp] at herr₂
    obtain ⟨hzero₂, h₃⟩ | ⟨hne₂, rfl, rfl⟩ := ifOk_inv h₃
    · obtain ⟨rfl, herr₃⟩ := tc24Irq_inv h₃ hhas
      dsimp only at herr₃
      rw [hcmp] at herr₃
      obtain ⟨hzero₃, h₄⟩ | ⟨hne₃, -, rfl⟩ := ifOk_inv h₄
      · refine ⟨[], tc25Free_inv h₄ hg, iff_of_false (by simp) fun hnot => ?_⟩
        exact hnot.2 ⟨herr₂.mp hzero₂, herr₃.mp hzero₃⟩
      · exact ⟨_, hg, hlost.trans ⟨fun _ => ⟨hchan, fun hall => hne₃ (herr₃.mpr hall.2)⟩, And.left⟩⟩
    · -- the failed comparison skips the two calls behind it
      obtain ⟨hzero, -⟩ | ⟨-, -, rfl⟩ := ifOk_inv h₄
      · exact absurd hzero hne₂
      · exact ⟨_, hg, hlost.trans ⟨fun _ => ⟨hchan, fun hall => hne₂ (herr₂.mpr hall.1)⟩, And.left⟩⟩
  · have hne : err₁ ≠ 0 := fun hzero => hchan (herr₁.mp hzero)
    obtain ⟨hzero, -⟩ | ⟨-, rfl, rfl⟩ := ifOk_inv h₂
    · exact absurd hzero hne
    obtain ⟨hzero, -⟩ | ⟨-, rfl, rfl⟩ := ifOk_inv h₃
    · exact absurd hzero hne
    obtain ⟨hzero, -⟩ | ⟨-, rfl, rfl⟩ := ifOk_inv h₄
    · exact absurd hzero hne
    exact ⟨_, hg, hlost.trans ⟨fun hchan' => absurd hchan' hchan, And.left⟩⟩

end SnowballLtp.Dma.TestResources
