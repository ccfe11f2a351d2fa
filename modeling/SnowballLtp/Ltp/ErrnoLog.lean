import SnowballLtp.Ltp.TstCount
import SnowballLtp.Machine.Bytes
import SnowballLtp.Machine.CInt
import SnowballLtp.Machine.Decimal

/-!
# The log of errnos

With `-e` a test counts the errnos that its calls leave, by `TEST_ERROR_LOG`, in an array that is
indexed by errno. In another array `TEST_EXP_ENOS` marks the errnos that the test expects. At the
end `TEST_CLEANUP` reports the counts that are not 0, and says of those that are not expected that
they are not. Errnos from `USC_MAX_ERRNO` on are left out by each of the macros, but none of them
looks for negative ones.

## Main definitions

* `testErrorLog`, `testExpEnos`, `testCleanup`: the macros.
* `Use`, `performAll`: a test, as far as it uses the first two.
* `received`, `expected`: what has been logged and expected, by the uses themselves.

## Main results

* `performAll_table`: what the arrays hold after any uses.
* `testCleanup_reports`: what is reported.
-/

namespace SnowballLtp.ErrnoLog

open SnowballLtp.TstRes

/-! ### The macros -/

def uscMaxErrno : ℕ := 2000

/-- `STD_ERRNO_LIST`, and the flags of `TEST_VALID_ENO`. -/
structure Arrays where
  list : List ℤ
  valid : List ℤ

def testErrorLog (stdErrnoLog eno : ℤ) (a : Arrays) : Except Fault Arrays :=
  if stdErrnoLog ≠ 0 ∧ eno < uscMaxErrno then do
    let n ← cell a.list eno
    let list ← store a.list eno [int32 (n + 1)]
    .ok { a with list }
  else .ok a

/-- The loop of `TEST_EXP_ENOS`, from an element of the array on. -/
def testExpEnos : (array : List ℤ) → Arrays → Except Fault Arrays
  | [], _ => .error .outOfBounds
  | eno :: rest, a =>
    if eno = 0 then .ok a
    else if eno < uscMaxErrno then do
      let valid ← store a.valid eno [1]
      testExpEnos rest { a with valid }
    else testExpEnos rest a

def message (i : ℕ) (count flag : ℤ) : CString :=
  "ERRNO ".toList ++ decimal i ++ ":\tReceived ".toList ++ decimal count ++ " Times".toList ++
    if flag ≠ 0 then [] else " ** UNEXPECTED **".toList

def testCleanup (env : Env) (stdErrnoLog : ℤ) (a : Arrays) : Run Unit :=
  onlyIf (stdErrnoLog ≠ 0) (forM (List.range uscMaxErrno) fun i =>
    onlyIf (a.list.getD i 0 ≠ 0)
      (tstResm env tinfo (message i (a.list.getD i 0) (a.valid.getD i 0))))

/-- The status that `tst_exit` would end the process with. -/
def exitStatus (lib : Lib) : BitVec 32 := lib.tExitval &&& ~~~(tretr ||| tinfo ||| tconf)

/-- A use of `TEST_ERROR_LOG` or of `TEST_EXP_ENOS`. -/
inductive Use where
  | log (eno : ℤ)
  | expect (array : List ℤ)
  deriving DecidableEq, Repr

def Use.perform (stdErrnoLog : ℤ) : Use → Arrays → Except Fault Arrays
  | .log eno => testErrorLog stdErrnoLog eno
  | .expect array => testExpEnos array

/-- The uses of a test, one after the other. -/
def performAll (stdErrnoLog : ℤ) (uses : List Use) (a : Arrays) : Except Fault Arrays :=
  uses.foldlM (fun a use => use.perform stdErrnoLog a) a

/-- The arrays at the start. -/
def Arrays.initial : Arrays :=
  ⟨List.replicate uscMaxErrno 0, List.replicate uscMaxErrno 0⟩

/-! ### What has been logged -/

/-- The use counts the errno. -/
def Use.logs (stdErrnoLog : ℤ) (i : ℕ) : Use → Bool
  | .log eno => stdErrnoLog ≠ 0 ∧ eno = i
  | .expect _ => false

/-- The use marks the errno as expected. -/
def Use.expects (i : ℕ) : Use → Bool
  | .log _ => false
  | .expect array => (array.takeWhile (· ≠ 0)).contains (i : ℤ)

/-- The use stays in its arrays. -/
def Use.InBounds (stdErrnoLog : ℤ) : Use → Prop
  | .log eno => stdErrnoLog ≠ 0 → 0 ≤ eno
  | .expect array => 0 ∈ array ∧ ∀ eno ∈ array.takeWhile (· ≠ 0), 0 ≤ eno

instance (stdErrnoLog : ℤ) (use : Use) : Decidable (use.InBounds stdErrnoLog) :=
  match use with
  | .log eno => inferInstanceAs (Decidable (stdErrnoLog ≠ 0 → 0 ≤ eno))
  | .expect array =>
    inferInstanceAs (Decidable (0 ∈ array ∧ ∀ eno ∈ array.takeWhile (· ≠ 0), 0 ≤ eno))

/-- How often an errno has been logged. -/
def received (stdErrnoLog : ℤ) (uses : List Use) (i : ℕ) : ℕ :=
  uses.countP fun use => use.logs stdErrnoLog i

def expected (uses : List Use) (i : ℕ) : Bool := uses.any fun use => use.expects i

/-- The messages for the errnos that have been received, in order. The counters are of type
`int`. -/
def reports (count : ℕ → ℕ) (marked : ℕ → Bool) : List CString :=
  ((List.range uscMaxErrno).filter fun i => int32 (count i) ≠ 0).map fun i =>
    message i (int32 (count i)) (if marked i then 1 else 0)

/-- The arrays with these counts and marks. -/
def table (count : ℕ → ℕ) (marked : ℕ → Bool) : Arrays where
  list := (List.range uscMaxErrno).map fun i => int32 (count i)
  valid := (List.range uscMaxErrno).map fun i => if marked i then 1 else 0

variable {count count' : ℕ → ℕ} {marked marked' : ℕ → Bool} {stdErrnoLog : ℤ}

theorem table_congr (hcount : ∀ i < uscMaxErrno, count i = count' i)
    (hmarked : ∀ i < uscMaxErrno, marked i = marked' i) :
    table count marked = table count' marked' := by
  have hlist : (List.range uscMaxErrno).map (fun i => int32 (count i)) =
      (List.range uscMaxErrno).map fun i => int32 (count' i) :=
    List.map_congr_left fun i hi => by rw [hcount i (List.mem_range.mp hi)]
  have hvalid : (List.range uscMaxErrno).map (fun i => if marked i then (1 : ℤ) else 0) =
      (List.range uscMaxErrno).map fun i => if marked' i then 1 else 0 :=
    List.map_congr_left fun i hi => by rw [hmarked i (List.mem_range.mp hi)]
  rw [table, table, hlist, hvalid]

theorem initial_eq : Arrays.initial = table (fun _ => 0) fun _ => false := by
  rw [Arrays.initial, table]
  simp [List.map_const', int32]

/-! ### A use -/

section Values

variable {f g : ℕ → ℤ} {n e : ℕ} {v : ℤ}

theorem cell_map_range (he : e < n) : cell ((List.range n).map f) e = .ok (f e) :=
  cell_eq_ok (by simp [he])

/-- A store into the values of a function. -/
theorem store_map_range (he : e < n) (hg : ∀ i < n, g i = if i = e then v else f i) :
    store ((List.range n).map f) e [v] = .ok ((List.range n).map g) := by
  rw [store_eq_ok _ _ _ (by simp; omega)]
  refine congrArg Except.ok (List.ext_getElem? fun i => ?_)
  rw [getElem?_overwrite (by simp; omega)]
  by_cases hi : i < n
  · have hvalue := hg i hi
    by_cases hie : i = e
    · subst hie
      simp [hi, hvalue]
    · rw [if_neg hie] at hvalue
      simp [hi, hvalue]
      omega
  · simp [hi]
    omega

end Values

theorem testErrorLog_table (eno : ℤ) :
    testErrorLog stdErrnoLog eno (table count marked) =
      if (Use.log eno).InBounds stdErrnoLog then
        .ok (table (fun i => count i + ((Use.log eno).logs stdErrnoLog i).toNat) marked)
      else .error .outOfBounds := by
  rw [testErrorLog]
  by_cases hlog : stdErrnoLog = 0
  · have hbounds : (Use.log eno).InBounds stdErrnoLog := fun h => absurd hlog h
    rw [if_neg fun h => h.1 hlog, if_pos hbounds]
    refine congrArg Except.ok (table_congr (fun i _ => ?_) fun _ _ => rfl)
    simp [Use.logs, hlog]
  by_cases hneg : eno < 0
  · have hbounds : ¬(Use.log eno).InBounds stdErrnoLog := fun h => Int.not_le.mpr hneg (h hlog)
    have hlt : eno < uscMaxErrno := Int.lt_of_lt_of_le hneg (Int.natCast_nonneg _)
    rw [if_pos ⟨hlog, hlt⟩, if_neg hbounds, cell, if_pos hneg]
    rfl
  obtain ⟨e, rfl⟩ := Int.eq_ofNat_of_zero_le (Int.not_lt.mp hneg)
  rw [if_pos (show (Use.log (e : ℤ)).InBounds stdErrnoLog from fun _ => Int.natCast_nonneg e)]
  by_cases he : e < uscMaxErrno
  · have hstore := @store_map_range (fun i => int32 (count i))
      (fun i => int32 ((count i + ((Use.log e).logs stdErrnoLog i).toNat : ℕ))) uscMaxErrno e
      (int32 (int32 (count e) + 1)) he fun i _ => ?_
    · rw [if_pos ⟨hlog, Int.ofNat_lt.mpr he⟩]
      simp only [table, cell_map_range he, bind, Except.bind, hstore]
    · by_cases hi : i = e
      · subst hi
        simp [Use.logs, hlog, int32_int32_add]
      · have hne : ¬(e : ℤ) = i := by omega
        simp [Use.logs, hi, hne]
  · rw [if_neg fun h => he (Int.ofNat_lt.mp h.2)]
    refine congrArg Except.ok (table_congr (fun i hi => ?_) fun _ _ => rfl)
    have hne : ¬(e : ℤ) = i := by omega
    simp [Use.logs, hne]

/-- The marks of an array, by induction on it. -/
theorem testExpEnos_table (array : List ℤ) (marked : ℕ → Bool) :
    testExpEnos array (table count marked) =
      if (Use.expect array).InBounds stdErrnoLog then
        .ok (table count fun i => marked i || (Use.expect array).expects i)
      else .error .outOfBounds := by
  induction array generalizing marked with
  | nil => rw [testExpEnos, if_neg fun h => absurd h.1 List.not_mem_nil]
  | cons eno rest ih =>
    rw [testExpEnos]
    by_cases hzero : eno = 0
    · subst hzero
      rw [if_pos rfl, if_pos ⟨List.mem_cons_self, by simp⟩]
      exact congrArg Except.ok (table_congr (fun _ _ => rfl) fun i _ => by simp [Use.expects])
    have hbounds : (Use.expect (eno :: rest)).InBounds stdErrnoLog ↔
        0 ≤ eno ∧ (Use.expect rest).InBounds stdErrnoLog := by
      simp [Use.InBounds, hzero, Ne.symm hzero, and_left_comm]
    have hexpects : ∀ i, (Use.expect (eno :: rest)).expects i =
        (decide (eno = i) || (Use.expect rest).expects i) := by
      intro i
      simp [Use.expects, hzero, eq_comm]
    rw [if_neg hzero]
    simp only [hbounds, hexpects]
    by_cases hneg : eno < 0
    · have hlt : eno < uscMaxErrno := Int.lt_of_lt_of_le hneg (Int.natCast_nonneg _)
      rw [if_pos hlt, if_neg fun h => Int.not_le.mpr hneg h.1, store, if_pos (.inl hneg)]
      rfl
    obtain ⟨e, rfl⟩ := Int.eq_ofNat_of_zero_le (Int.not_lt.mp hneg)
    simp only [Int.natCast_nonneg, true_and]
    by_cases he : e < uscMaxErrno
    · have hstore := @store_map_range (fun i => if marked i then 1 else 0)
        (fun i => if marked i || decide ((e : ℤ) = i) then 1 else 0) uscMaxErrno e 1 he
        fun i _ => ?_
      · rw [if_pos (Int.ofNat_lt.mpr he)]
        simp only [table, bind, Except.bind, hstore]
        refine (ih _).trans ?_
        simp only [Bool.or_assoc]
        rfl
      · by_cases hi : i = e
        · simp [hi]
        · have hne : ¬(e : ℤ) = i := by omega
          simp [hi, hne]
    · rw [if_neg fun h => he (Int.ofNat_lt.mp h), ih, @table_congr count count _
        (fun i => marked i || (decide ((e : ℤ) = i) || (Use.expect rest).expects i))
        (fun _ _ => rfl) fun i hi => ?_]
      have hne : ¬(e : ℤ) = i := by omega
      simp [hne]

/-- **The arrays.** Uses that stay in the arrays leave the counts of what was logged and the marks
of what is expected there, and the others leave them. -/
theorem performAll_table (uses : List Use) (count : ℕ → ℕ) (marked : ℕ → Bool) :
    performAll stdErrnoLog uses (table count marked) =
      if ∀ use ∈ uses, use.InBounds stdErrnoLog then
        .ok (table (fun i => count i + received stdErrnoLog uses i)
          fun i => marked i || expected uses i)
      else .error .outOfBounds := by
  induction uses generalizing count marked with
  | nil => simp [performAll, received, expected, pure, Except.pure]
  | cons use rest ih =>
    have huse : use.perform stdErrnoLog (table count marked) =
        if use.InBounds stdErrnoLog then
          .ok (table (fun i => count i + (use.logs stdErrnoLog i).toNat)
            fun i => marked i || use.expects i)
        else .error .outOfBounds := by
      cases use with
      | log eno => simpa [Use.perform, Use.expects] using testErrorLog_table eno
      | expect array => simpa [Use.perform, Use.logs] using testExpEnos_table array marked
    rw [performAll, List.foldlM_cons, huse]
    by_cases hbounds : use.InBounds stdErrnoLog
    · rw [if_pos hbounds]
      refine (ih _ _).trans ?_
      simp only [List.forall_mem_cons, hbounds, true_and, received, expected, List.countP_cons,
        List.any_cons, Bool.or_assoc, Nat.add_assoc]
      refine if_congr Iff.rfl (congrArg Except.ok (table_congr (fun i _ => ?_) fun _ _ => rfl)) rfl
      cases use.logs stdErrnoLog i <;> simp [Nat.add_comm]
    · rw [if_neg hbounds, if_neg fun h => hbounds (h use List.mem_cons_self)]
      rfl

/-! ### The report -/

variable {env : Env} {lib : Lib}

theorem forM_onlyIf {l : List ℕ} (c : ℕ → Prop) [DecidablePred c] (m : ℕ → Run Unit) :
    (forM l fun i => onlyIf (c i) (m i)) = forM (l.filter fun i => c i) m := by
  induction l with
  | nil => rfl
  | cons i l ih =>
    rw [List.forM_cons, ih]
    by_cases hi : c i
    · rw [onlyIf_of_pos hi, List.filter_cons_of_pos (by simpa using hi), List.forM_cons]
    · rw [onlyIf_of_neg hi, List.filter_cons_of_neg (by simpa using hi), pure_bind]

theorem forM_congr_mem {l : List ℕ} {m m' : ℕ → Run Unit} (h : ∀ i ∈ l, m i = m' i) :
    forM l m = forM l m' := by
  induction l with
  | nil => rfl
  | cons i l ih =>
    rw [List.forM_cons, List.forM_cons, h i List.mem_cons_self,
      ih fun j hj => h j (List.mem_cons_of_mem i hj)]

theorem getD_map_range {n i : ℕ} {f : ℕ → ℤ} (hi : i < n) :
    ((List.range n).map f).getD i 0 = f i := by
  rw [List.getD_eq_getElem?_getD, List.getElem?_map, List.getElem?_range hi]
  rfl

/-- `TEST_CLEANUP` reports what the arrays hold. -/
theorem testCleanup_table : testCleanup env stdErrnoLog (table count marked) =
    onlyIf (stdErrnoLog ≠ 0) (forM (reports count marked) (tstResm env tinfo)) := by
  have hall : (forM (List.range uscMaxErrno) fun i =>
      onlyIf ((table count marked).list.getD i 0 ≠ 0) (tstResm env tinfo (message i
        ((table count marked).list.getD i 0) ((table count marked).valid.getD i 0)))) =
      forM (List.range uscMaxErrno) fun i => onlyIf (int32 (count i) ≠ 0)
        (tstResm env tinfo (message i (int32 (count i)) (if marked i then 1 else 0))) := by
    refine forM_congr_mem fun i hi => ?_
    rw [table, getD_map_range (List.mem_range.mp hi), getD_map_range (List.mem_range.mp hi)]
  rw [testCleanup, hall, reports, List.forM_map, forM_onlyIf]

theorem message_ne_nil (i : ℕ) (n flag : ℤ) : message i n flag ≠ [] := by
  unfold message
  have hfront : "ERRNO ".toList ≠ [] := by decide
  simp only [ne_eq, List.append_eq_nil_iff, hfront, false_and, not_false_eq_true]

theorem ne_nil_of_mem_reports {mesg : CString} (h : mesg ∈ reports count marked) : mesg ≠ [] := by
  rw [reports, List.mem_map] at h
  obtain ⟨i, -, rfl⟩ := h
  exact message_ne_nil _ _ _

/-- Bits that are not part of the exit status leave it as it is. -/
theorem exitStatus_eq {bits : BitVec 32} {events : List Event}
    (h : Advance env bits events lib lib') (hbits : bits &&& ~~~(tretr ||| tinfo ||| tconf) = 0#32)
    (hregular : lib.Regular) : exitStatus lib' = exitStatus lib := by
  obtain ⟨extra, hexitval, hextra⟩ := h.exitval
  obtain rfl : extra = 0#32 := hextra hregular
  rw [exitStatus, exitStatus, hexitval, BitVec.or_zero, BitVec.and_or_distrib_right, hbits,
    BitVec.or_zero]

/-- Information is neither counted nor part of the exit status. -/
theorem forM_tinfo_outcome {messages : List CString} (hmessages : ∀ mesg ∈ messages, mesg ≠ [])
    (hfile : Untroubled env lib.file) :
    Outcome (forM messages (tstResm env tinfo)) lib
      (fun _ lib' => lib'.tstCount = lib.tstCount ∧
        ∃ bits, bits &&& ~~~(tretr ||| tinfo ||| tconf) = 0#32 ∧
          Advance env bits (messages.map fun _ => .report tinfo) lib lib') fun _ _ => False := by
  induction messages generalizing lib with
  | nil =>
    exact Outcome.of_ok (EStateM.run_pure _ _) ⟨rfl, 0, BitVec.zero_and, Advance.refl env lib⟩
  | cons mesg rest ih =>
    rw [List.forM_cons]
    have hreport := (tstRes_advance tinfo mesg (.inl rfl) hfile).and
      (tstRes_count tinfo none mesg lib)
    refine Outcome.bind ((Outcome.of_run_eq (tstResm_run tinfo mesg lib) hreport).mono
      (fun _ _ => id) fun _ _ h => hmessages mesg List.mem_cons_self h.1.2) fun _ lib₁ h₁ => ?_
    obtain ⟨⟨hadvance, -⟩, hcount⟩ := h₁
    refine (ih (fun other hmem => hmessages other (List.mem_cons_of_mem mesg hmem))
      (hadvance.file hfile)).mono (fun _ lib₂ h₂ => ?_) fun _ _ => id
    obtain ⟨hcount₂, bits, hbits, hadvance₂⟩ := h₂
    refine ⟨hcount₂.trans (hcount.trans (Int.add_zero _)), _, ?_, hadvance.trans hadvance₂⟩
    rw [BitVec.and_or_distrib_right, hbits]
    decide

/-- **The log of errnos.** The uses of a test stay in the arrays if and only if no negative errno is
logged or expected, and each array of expected errnos has a 0 at its end. Then `TEST_CLEANUP`
reports, when `-e` is given, the errnos that have been logged, each once and in order, with how
often they have been logged and whether the test has expected them. The reports are neither
counted nor seen in the exit status. -/
theorem testCleanup_reports (env : Env) (stdErrnoLog : ℤ) (uses : List Use) :
    ((∃ a, performAll stdErrnoLog uses .initial = .ok a) ↔
      ∀ use ∈ uses, use.InBounds stdErrnoLog) ∧
    ∀ a, performAll stdErrnoLog uses .initial = .ok a →
      testCleanup env stdErrnoLog a = onlyIf (stdErrnoLog ≠ 0)
        (forM (reports (received stdErrnoLog uses) (expected uses)) (tstResm env tinfo)) ∧
      ∀ lib : Lib, Untroubled env lib.file → Outcome (testCleanup env stdErrnoLog a) lib
        (fun _ lib' => lib'.tstCount = lib.tstCount ∧
          (lib.Regular → exitStatus lib' = exitStatus lib) ∧
          ∃ bits, bits &&& failureMask = 0 ∧ Advance env bits (if stdErrnoLog ≠ 0 then
            (reports (received stdErrnoLog uses) (expected uses)).map fun _ => .report tinfo
          else []) lib lib') fun _ _ => False := by
  have hrun := @performAll_table stdErrnoLog uses (fun _ => 0) fun _ => false
  rw [← initial_eq] at hrun
  simp only [Nat.zero_add, Bool.false_or] at hrun
  by_cases hbounds : ∀ use ∈ uses, use.InBounds stdErrnoLog
  · rw [if_pos hbounds] at hrun
    refine ⟨iff_of_true ⟨_, hrun⟩ hbounds, fun a ha => ?_⟩
    obtain rfl := Except.ok.inj (hrun.symm.trans ha)
    rw [testCleanup_table]
    generalize hmessages : reports (received stdErrnoLog uses) (expected uses) = messages
    have hne : ∀ mesg ∈ messages, mesg ≠ [] := by
      rw [← hmessages]
      exact fun _ => ne_nil_of_mem_reports
    refine ⟨rfl, fun lib hfile => Outcome.onlyIf (fun hlog => ?_) fun hlog => ?_⟩
    · rw [if_pos hlog]
      refine (forM_tinfo_outcome hne hfile).imp fun _ lib' h => ?_
      obtain ⟨hcount, bits, hbits, hadvance⟩ := h
      refine ⟨hcount, exitStatus_eq hadvance hbits, bits, ?_, hadvance⟩
      have hfailures : ~~~(tretr ||| tinfo ||| tconf) &&& failureMask = failureMask := by decide
      rw [← hfailures, ← BitVec.and_assoc, hbits]
      exact BitVec.zero_and
    · rw [if_neg hlog]
      exact ⟨rfl, fun _ => rfl, 0, BitVec.zero_and, Advance.refl env lib⟩
  · rw [if_neg hbounds] at hrun
    have hnone : ∀ a, performAll stdErrnoLog uses .initial ≠ .ok a := fun a ha =>
      absurd (hrun.symm.trans ha) (by simp)
    exact ⟨iff_of_false (fun h => h.elim hnone) hbounds, fun a ha => absurd ha (hnone a)⟩

end SnowballLtp.ErrnoLog
