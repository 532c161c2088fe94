import NyxId.ChainVerify.Paging
import NyxId.Interleave.Collection

/-!
When verification is complete. Pages give the verdict of the whole range; a report
without a next page covers the range exactly when the run of stored entries that it
checked does not stop short of the range.
-/

namespace NyxId.ChainVerify

open Interleave

section

variable {E : Type} {K : ChainReader E} {stored : List E} {head : Option (ℤ × String)}
  {fromSeq : ℤ} {toSeq : Option ℤ} {limit : ℕ} {prev : String}

/-- Numbers up to the smaller of the upper bound and the number of the newest entry. -/
def Wanted (K : ChainReader E) (stored : List E) (toSeq : Option ℤ) (n : ℤ) : Prop :=
  (∀ t, toSeq = some t → n ≤ t) ∧ ∃ entry ∈ stored, n ≤ K.seq entry

/-- The number is present exactly once, in an entry that links to its predecessor and
whose hash matches its content. -/
def SoundAt (K : ChainReader E) (stored : List E) (n : ℤ) : Prop :=
  ∃ entry, (stored.filter fun e => K.seq e = n) = [entry] ∧
    K.computeHash entry = .ok (K.entryHash entry) ∧
    ((n = 1 ∧ K.prevHash entry = genesisPrevHash) ∨
      ∃ before ∈ stored, K.seq before = n - 1 ∧ K.prevHash entry = K.entryHash before)

def Complete (K : ChainReader E) (stored : List E) (fromSeq : ℤ) (toSeq : Option ℤ) : Prop :=
  ∀ n, fromSeq ≤ n → Wanted K stored toSeq n → SoundAt K stored n

/-- The head is the newest entry; it may go unreported. -/
def HeadOf (K : ChainReader E) (stored : List E) (head : Option (ℤ × String)) : Prop :=
  ∀ tail, head = some tail → (∃ entry ∈ stored, K.seq entry = tail.1) ∧
    ∀ entry ∈ stored, K.seq entry ≤ tail.1

/-- What verification of a range is to do, page by page: a report without a next page
says that the range is complete, and pages have the verdict of the whole range. -/
def Verifies (K : ChainReader E) (stored : List E)
    (page : Option ℤ → Except AppError VerifyReport) (fromSeq toSeq limit : Option ℤ) : Prop :=
  (∀ report, page fromSeq = .ok report → report.status = .ok → report.nextFromSeq = none →
    Complete K stored (fromSeq.getD 1) toSeq) ∧
  (checkLimit (limit.getD defaultVerifyLimit) = .ok () →
    ∀ pages, stored.length < pages →
      followPages page pages fromSeq =
        some (checkRange (fromSeq.getD 1) toSeq >>= fun _ =>
          verifyRange K stored (fromSeq.getD 1) toSeq))

/-- The first page of a range does not stop short of the range: where its entries are
an unbroken run, they reach the end, or a page of the limit's length leads on to the
next one; unreported, the head leads nowhere and the rest has to be a run by itself. -/
def ReachesEnd (K : ChainReader E) (stored : List E) (head : Option (ℤ × String)) (fromSeq : ℤ)
    (toSeq : Option ℤ) (limit : ℕ) : Prop :=
  ∀ prev, anchor K stored fromSeq = some prev →
    Run K fromSeq prev ((window K stored fromSeq toSeq).take limit) →
      ¬ Wanted K stored toSeq (fromSeq + ((window K stored fromSeq toSeq).take limit).length) ∨
      (((window K stored fromSeq toSeq).take limit).length = limit ∧
        (head.isSome ∨ (Run K fromSeq prev (window K stored fromSeq toSeq) ∧
          ¬ Wanted K stored toSeq (fromSeq + (window K stored fromSeq toSeq).length))))

theorem wanted_mono {n m : ℤ} (hle : n ≤ m) (h : Wanted K stored toSeq m) :
    Wanted K stored toSeq n := by
  obtain ⟨hto, entry, hmem, hge⟩ := h
  exact ⟨fun t ht => hle.trans (hto t ht), entry, hmem, hle.trans hge⟩

theorem anchor_link {n : ℤ} (h : anchor K stored n = some prev) :
    (n = 1 ∧ prev = genesisPrevHash) ∨
      ∃ before ∈ stored, K.seq before = n - 1 ∧ prev = K.entryHash before := by
  unfold anchor at h
  split at h
  · rename_i hfirst
    exact .inl ⟨hfirst, (Option.some.inj h).symm⟩
  · obtain ⟨before, hfound, hhash⟩ := Option.map_eq_some_iff.mp h
    have hseq := List.find?_some hfound
    exact .inr ⟨before, List.mem_of_find?_eq_some hfound, by simpa using hseq, hhash.symm⟩

theorem filter_seq_eq (hunique : (stored.map K.seq).Nodup) {entry : E} (hmem : entry ∈ stored) :
    (stored.filter fun e => K.seq e = K.seq entry) = [entry] := by
  induction stored with
  | nil => cases hmem
  | cons first rest ih =>
    rw [List.map_cons, List.nodup_cons] at hunique
    rcases List.mem_cons.mp hmem with rfl | hmem
    · have hrest : (rest.filter fun e => K.seq e = K.seq entry) = [] := by
        rw [List.filter_eq_nil_iff]
        intro other hother
        simp only [decide_eq_true_eq]
        intro hsame
        exact hunique.1 (hsame ▸ List.mem_map_of_mem hother)
      simp [hrest]
    · have hne : K.seq first ≠ K.seq entry := by
        intro hsame
        exact hunique.1 (hsame ▸ List.mem_map_of_mem hmem)
      simp [hne, ih hunique.2 hmem]

/-- A run of stored entries that reaches the end of a range completes it. -/
theorem complete_of_run (hunique : (stored.map K.seq).Nodup)
    (hanchor : anchor K stored fromSeq = some prev) {entries : List E}
    (hstored : ∀ entry ∈ entries, entry ∈ stored) (hrun : Run K fromSeq prev entries)
    (hend : ¬ Wanted K stored toSeq (fromSeq + entries.length)) :
    Complete K stored fromSeq toSeq := by
  intro n hle hwanted
  have hlt : n < fromSeq + entries.length := by
    by_contra hge
    exact hend (wanted_mono (not_lt.mp hge) hwanted)
  obtain ⟨entry, hmem, hseq, hhash, hlink⟩ := run_exists hrun hle hlt
  have honce := filter_seq_eq hunique (hstored entry hmem)
  rw [hseq] at honce
  refine ⟨entry, honce, hhash, ?_⟩
  rcases hlink with ⟨rfl, hprev⟩ | ⟨before, hbefore, hseq', hprev⟩
  · rw [hprev]
    exact anchor_link hanchor
  · exact .inr ⟨before, hstored before hbefore, hseq', hprev⟩

/-- Numbers that are complete and inside a range are in its window. -/
theorem soundAt_window {n : ℤ} (h : SoundAt K stored n) (hle : fromSeq ≤ n)
    (hwanted : Wanted K stored toSeq n) : ∃ entry ∈ window K stored fromSeq toSeq,
      K.seq entry = n := by
  obtain ⟨entry, honce, -, -⟩ := h
  have hmem : entry ∈ stored.filter fun e => K.seq e = n := by simp [honce]
  obtain ⟨hstored, hseq⟩ := List.mem_filter.mp hmem
  have hseq : K.seq entry = n := by simpa using hseq
  exact ⟨entry, mem_window.mpr ⟨hstored, by omega, fun t ht => hseq ▸ hwanted.1 t ht⟩, hseq⟩

/-- A range that the head does not lead beyond has no entries after it. -/
theorem window_beyond {m : ℤ} (h : ¬ Wanted K stored toSeq m) : window K stored m toSeq = [] := by
  rw [List.eq_nil_iff_forall_not_mem]
  intro entry hmem
  obtain ⟨hstored, hge, hto⟩ := mem_window.mp hmem
  exact h ⟨fun t ht => hge.trans (hto t ht), entry, hstored, hge⟩

/-- Whether a next page is named, when the head is reported. -/
theorem more_iff_wanted {tail : ℤ × String} (hhead : HeadOf K stored head) (hsome : head = some tail)
    (m : ℤ) : (toSeq.all (m ≤ ·) = true ∧ head.any (fun t => m ≤ t.1) = true) ↔
      Wanted K stored toSeq m := by
  obtain ⟨⟨newest, hnewest, hseq⟩, hmax⟩ := hhead tail hsome
  have hto : toSeq.all (m ≤ ·) = true ↔ ∀ t, toSeq = some t → m ≤ t := by
    cases toSeq <;> simp
  have hany : head.any (fun t => m ≤ t.1) = true ↔ ∃ entry ∈ stored, m ≤ K.seq entry := by
    rw [hsome, Option.any_some, decide_eq_true_eq]
    constructor
    · intro hle
      exact ⟨newest, hnewest, by omega⟩
    · rintro ⟨entry, hmem, hle⟩
      have hle' := hmax entry hmem
      omega
  rw [hto, hany]
  rfl

end

/-!
Exactly when verification does what it is to do: pages go on to the end of the range
as long as the head is reported and a run does not stop short of the range.
-/

variable {E : Type} {K : ChainReader E} {stored : List E} {head : Option (ℤ × String)}
  {fromSeq toSeq limit : Option ℤ} {prev : String}

theorem verify_valid (hrange : checkRange (fromSeq.getD 1) toSeq = .ok ())
    (hlimit : checkLimit (limit.getD defaultVerifyLimit) = .ok ()) :
    verify K stored head fromSeq toSeq limit = verifyPage K stored head (fromSeq.getD 1) toSeq
      (limit.getD defaultVerifyLimit).toNat := by
  unfold verify
  simp only [hrange, hlimit, bind, Except.bind]

theorem checkRange_ok {n : ℤ} : checkRange n toSeq = .ok () ↔
    1 ≤ n ∧ ∀ t, toSeq = some t → n ≤ t := by
  unfold checkRange
  cases toSeq with
  | none =>
    by_cases hlow : n < 1
    · simp [hlow]
    · simp only [hlow, if_false, Option.any_none, Bool.false_eq_true, true_iff]
      exact ⟨by omega, fun t ht => by cases ht⟩
  | some t =>
    by_cases hlow : n < 1
    · simp [hlow]
    · by_cases hhigh : t < n
      · simp [hlow, hhigh]
      · simp only [hlow, hhigh, if_false, Option.any_some, decide_false, Bool.false_eq_true,
          true_iff]
        refine ⟨by omega, fun u hu => ?_⟩
        cases hu
        omega

theorem checkLimit_pos {n : ℤ} (h : checkLimit n = .ok ()) : 0 < n.toNat := by
  unfold checkLimit at h
  split at h
  · omega
  · cases h

/-- The first page of a range, by the limit of the request. -/
def firstPage (K : ChainReader E) (stored : List E) (fromSeq toSeq limit : Option ℤ) : List E :=
  (window K stored (fromSeq.getD 1) toSeq).take (limit.getD defaultVerifyLimit).toNat

/-- Whether a report names a next page after a first page that is a run. -/
def NextPage (K : ChainReader E) (stored : List E) (head : Option (ℤ × String))
    (fromSeq toSeq limit : Option ℤ) : Prop :=
  (firstPage K stored fromSeq toSeq limit).length = (limit.getD defaultVerifyLimit).toNat ∧
    toSeq.all (fromSeq.getD 1 + (firstPage K stored fromSeq toSeq limit).length ≤ ·) = true ∧
    head.any (fun tail =>
      fromSeq.getD 1 + (firstPage K stored fromSeq toSeq limit).length ≤ tail.1) = true

instance : Decidable (NextPage K stored head fromSeq toSeq limit) := by
  unfold NextPage
  infer_instance

section

variable (hrange : checkRange (fromSeq.getD 1) toSeq = .ok ())
  (hlimit : checkLimit (limit.getD defaultVerifyLimit) = .ok ())

include hrange hlimit

/-- Without a hash to link to, or with a page that is no run, the first page decides. -/
theorem followPages_stop (pages : ℕ)
    (hstop : ∀ prev, anchor K stored (fromSeq.getD 1) = some prev →
      ¬ Run K (fromSeq.getD 1) prev (firstPage K stored fromSeq toSeq limit)) :
    followPages (verify K stored head · toSeq limit) (pages + 1) fromSeq =
      some (verifyRange K stored (fromSeq.getD 1) toSeq) := by
  rw [followPages, verify_valid hrange hlimit]
  cases hanchor : anchor K stored (fromSeq.getD 1) with
  | none =>
    unfold verifyPage verifyRange
    rw [hanchor]
    rfl
  | some prev =>
    rcases verifyPage_stop head hanchor (hstop prev hanchor) with
      ⟨e, hpage, hwhole⟩ | ⟨report, b, hpage, -, hbreak, hwhole⟩
    · rw [hpage, hwhole]
    · simp only [hpage, hbreak, hwhole]

theorem followPages_run (pages : ℕ) (hanchor : anchor K stored (fromSeq.getD 1) = some prev)
    (hrun : Run K (fromSeq.getD 1) prev (firstPage K stored fromSeq toSeq limit)) :
    followPages (verify K stored head · toSeq limit) (pages + 1) fromSeq =
      if NextPage K stored head fromSeq toSeq limit then
        followPages (verify K stored head · toSeq limit) pages
          (some (fromSeq.getD 1 + (firstPage K stored fromSeq toSeq limit).length))
      else some (.ok none) := by
  obtain ⟨report, hpage, -, hbreak, hnext⟩ := verifyPage_run head hanchor hrun
  rw [followPages, verify_valid hrange hlimit]
  simp only [hpage, hbreak]
  by_cases hmore : NextPage K stored head fromSeq toSeq limit
  · rw [if_pos hmore]
    unfold NextPage firstPage at hmore
    rw [if_pos hmore] at hnext
    simp only [hnext]
    rfl
  · rw [if_neg hmore]
    unfold NextPage firstPage at hmore
    rw [if_neg hmore] at hnext
    simp only [hnext]

end

theorem window_of_short {from' : ℤ} {n : ℕ}
    (h : ((window K stored from' toSeq).take n).length < n) :
    (window K stored from' toSeq).take n = window K stored from' toSeq := by
  rw [List.length_take] at h
  exact List.take_of_length_le (by omega)

/-- A range that ends with its first page is that page. -/
theorem window_of_end {from' : ℤ} {n : ℕ} (hunique : (stored.map K.seq).Nodup)
    (hrun : Run K from' prev ((window K stored from' toSeq).take n))
    (hend : ¬ Wanted K stored toSeq (from' + ((window K stored from' toSeq).take n).length)) :
    (window K stored from' toSeq).take n = window K stored from' toSeq := by
  have hrest := window_rest hrun hunique
  rw [window_beyond hend] at hrest
  conv_rhs => rw [← List.take_append_drop n (window K stored from' toSeq), ← hrest,
    List.append_nil]

/-- Pages have the verdict of the whole range when the head is reported. -/
theorem pages_agree {tail : ℤ × String} (hunique : (stored.map K.seq).Nodup)
    (hhead : HeadOf K stored head) (hsome : head = some tail)
    (hlimit : checkLimit (limit.getD defaultVerifyLimit) = .ok ()) :
    ∀ (pages : ℕ) (fromSeq : Option ℤ), checkRange (fromSeq.getD 1) toSeq = .ok () →
      (window K stored (fromSeq.getD 1) toSeq).length < pages →
      followPages (verify K stored head · toSeq limit) pages fromSeq =
        some (verifyRange K stored (fromSeq.getD 1) toSeq) := by
  intro pages
  induction pages with
  | zero => exact fun fromSeq hrange hlt => absurd hlt (Nat.not_lt_zero _)
  | succ pages ih =>
    intro fromSeq hrange hlt
    by_cases hpage : ∃ prev, anchor K stored (fromSeq.getD 1) = some prev ∧
        Run K (fromSeq.getD 1) prev (firstPage K stored fromSeq toSeq limit)
    · obtain ⟨prev, hanchor, hrun⟩ := hpage
      rw [followPages_run hrange hlimit pages hanchor hrun]
      have hpos := checkLimit_pos hlimit
      split
      · rename_i hmore
        obtain ⟨hfull, hto, -⟩ := hmore
        have hlen : 0 < (firstPage K stored fromSeq toSeq limit).length := by omega
        have hne := List.ne_nil_of_length_pos hlen
        have hfrom := (checkRange_ok.mp hrange).1
        have hrange' : checkRange ((some (fromSeq.getD 1 +
            ((firstPage K stored fromSeq toSeq limit).length : ℤ))).getD 1) toSeq = .ok () := by
          rw [checkRange_ok, Option.getD_some]
          refine ⟨by omega, fun t ht => ?_⟩
          simpa [ht] using hto
        have hshorter : (window K stored ((some (fromSeq.getD 1 +
            ((firstPage K stored fromSeq toSeq limit).length : ℤ))).getD 1) toSeq).length <
              pages := by
          have hrest := window_rest hrun hunique
          rw [Option.getD_some, firstPage, hrest, List.length_drop]
          unfold firstPage at hlen
          rw [List.length_take] at hlen
          omega
        rw [ih _ hrange' hshorter, Option.getD_some, firstPage,
          verifyRange_rest hfrom hunique hanchor hrun hne]
      · rename_i hmore
        have hwhole : firstPage K stored fromSeq toSeq limit =
            window K stored (fromSeq.getD 1) toSeq := by
          by_cases hfull : (firstPage K stored fromSeq toSeq limit).length =
              (limit.getD defaultVerifyLimit).toNat
          · refine window_of_end hunique hrun fun hwanted => hmore ⟨hfull, ?_⟩
            exact (more_iff_wanted hhead hsome _).mpr hwanted
          · exact window_of_short (lt_of_le_of_ne (List.length_take_le _ _) hfull)
        rw [hwhole] at hrun
        rw [(verifyRange_run hanchor).mpr hrun]
    · exact followPages_stop hrange hlimit pages fun prev hanchor hrun =>
        hpage ⟨prev, hanchor, hrun⟩

theorem length_window_le {n : ℤ} : (window K stored n toSeq).length ≤ stored.length := by
  unfold window
  exact (List.length_filter_le _ _).trans (List.length_mergeSort _).le

/-- A complete range has an entry for every wanted number, so a run through it does
not end before the range does. -/
theorem run_ends {n : ℤ} (hcomplete : Complete K stored n toSeq)
    (hrun : Run K n prev (window K stored n toSeq)) :
    ¬ Wanted K stored toSeq (n + (window K stored n toSeq).length) := by
  intro hwanted
  have hle : n ≤ n + (window K stored n toSeq).length := by omega
  obtain ⟨entry, hmem, hseq⟩ := soundAt_window (hcomplete _ hle hwanted) hle hwanted
  have hlt := (run_mem hrun hmem).2
  omega

/-- Verification of a valid request does what it is to do exactly when the first page
does not stop short of the range. -/
theorem verifies_valid (hunique : (stored.map K.seq).Nodup) (hhead : HeadOf K stored head)
    (hrange : checkRange (fromSeq.getD 1) toSeq = .ok ())
    (hlimit : checkLimit (limit.getD defaultVerifyLimit) = .ok ()) :
    Verifies K stored (verify K stored head · toSeq limit) fromSeq toSeq limit ↔
      ReachesEnd K stored head (fromSeq.getD 1) toSeq (limit.getD defaultVerifyLimit).toNat := by
  constructor
  · rintro ⟨hreports, hpages⟩ prev hanchor hrun
    by_cases hend : Wanted K stored toSeq
      (fromSeq.getD 1 + (firstPage K stored fromSeq toSeq limit).length)
    swap
    · exact .inl hend
    obtain ⟨report, hpage, hstatus, -, hnext⟩ := verifyPage_run head hanchor hrun
    rw [← verify_valid hrange hlimit] at hpage
    by_cases hfull : (firstPage K stored fromSeq toSeq limit).length =
        (limit.getD defaultVerifyLimit).toNat
    · refine .inr ⟨hfull, ?_⟩
      cases hsome : head with
      | some tail => exact .inl rfl
      | none =>
        have hcomplete := hreports report hpage hstatus (by simp [hnext, hsome])
        have hfollow := hpages hlimit (stored.length + 1) (Nat.lt_succ_self _)
        rw [followPages_run hrange hlimit stored.length hanchor hrun, if_neg (by
          rintro ⟨-, -, hany⟩
          simp [hsome] at hany)] at hfollow
        have hwhole := (Option.some.inj hfollow).symm
        simp only [hrange, bind, Except.bind] at hwhole
        have hrun' := (verifyRange_run hanchor).mp hwhole
        exact .inr ⟨hrun', run_ends hcomplete hrun'⟩
    · have hshort : (firstPage K stored fromSeq toSeq limit).length <
          (limit.getD defaultVerifyLimit).toNat := lt_of_le_of_ne (List.length_take_le _ _) hfull
      have hcomplete := hreports report hpage hstatus (by
        rw [hnext, if_neg]
        exact fun h => hfull h.1)
      unfold firstPage at hend hshort
      rw [window_of_short hshort] at hrun hend
      exact absurd hend (run_ends hcomplete hrun)
  · intro hreaches
    refine ⟨fun report hverify hstatus hnone => ?_, fun _ pages hlt => ?_⟩
    · dsimp only at hverify
      rw [verify_valid hrange hlimit] at hverify
      cases hanchor : anchor K stored (fromSeq.getD 1) with
      | none =>
        unfold verifyPage at hverify
        rw [hanchor] at hverify
        cases hverify
        cases hstatus
      | some prev =>
        by_cases hrun : Run K (fromSeq.getD 1) prev (firstPage K stored fromSeq toSeq limit)
        · have hmem : ∀ entry ∈ window K stored (fromSeq.getD 1) toSeq, entry ∈ stored :=
            fun entry hentry => (mem_window.mp hentry).1
          obtain ⟨report', hpage, -, -, hnext⟩ := verifyPage_run head hanchor hrun
          obtain rfl : report = report' := Except.ok.inj (hverify.symm.trans hpage)
          rcases hreaches prev hanchor hrun with hend | ⟨hfull, hsome | ⟨hrun', hend⟩⟩
          · exact complete_of_run hunique hanchor
              (fun entry hentry => hmem entry (List.mem_of_mem_take hentry)) hrun hend
          · obtain ⟨tail, hsome⟩ := Option.isSome_iff_exists.mp hsome
            refine complete_of_run hunique hanchor
              (fun entry hentry => hmem entry (List.mem_of_mem_take hentry)) hrun fun hwanted => ?_
            have hmore := (more_iff_wanted hhead hsome _).mpr hwanted
            rw [hnone, if_pos ⟨hfull, hmore⟩] at hnext
            cases hnext
          · exact complete_of_run hunique hanchor hmem hrun' hend
        · rcases verifyPage_stop head hanchor hrun with
            ⟨e, hpage, -⟩ | ⟨report', b, hpage, hbroken, -, -⟩
          · cases hverify.symm.trans hpage
          · obtain rfl : report = report' := Except.ok.inj (hverify.symm.trans hpage)
            cases hstatus.symm.trans hbroken
    · simp only [hrange, bind, Except.bind]
      cases hsome : head with
      | some tail =>
        rw [← hsome]
        exact pages_agree hunique hhead hsome hlimit pages fromSeq hrange
          (length_window_le.trans_lt hlt)
      | none =>
        obtain ⟨pages, rfl⟩ := Nat.exists_eq_succ_of_ne_zero (by omega : pages ≠ 0)
        by_cases hpage : ∃ prev, anchor K stored (fromSeq.getD 1) = some prev ∧
            Run K (fromSeq.getD 1) prev (firstPage K stored fromSeq toSeq limit)
        · obtain ⟨prev, hanchor, hrun⟩ := hpage
          rw [followPages_run hrange hlimit pages hanchor hrun, if_neg (by
            rintro ⟨-, -, hany⟩
            cases hany)]
          have hwhole : Run K (fromSeq.getD 1) prev (window K stored (fromSeq.getD 1) toSeq) := by
            rcases hreaches prev hanchor hrun with hend | ⟨-, hhead' | ⟨hrun', -⟩⟩
            · rwa [firstPage, window_of_end hunique hrun hend] at hrun
            · rw [hsome] at hhead'
              cases hhead'
            · exact hrun'
          rw [(verifyRange_run hanchor).mpr hwhole]
        · exact followPages_stop hrange hlimit pages fun prev hanchor hrun =>
            hpage ⟨prev, hanchor, hrun⟩

/-- Verification does what it is to do exactly when no valid request has a first page
that stops short of its range. -/
theorem verifies_iff (hunique : (stored.map K.seq).Nodup) (hhead : HeadOf K stored head) :
    Verifies K stored (verify K stored head · toSeq limit) fromSeq toSeq limit ↔
      (checkRange (fromSeq.getD 1) toSeq = .ok () →
        checkLimit (limit.getD defaultVerifyLimit) = .ok () →
        ReachesEnd K stored head (fromSeq.getD 1) toSeq
          (limit.getD defaultVerifyLimit).toNat) := by
  cases hrange : checkRange (fromSeq.getD 1) toSeq with
  | error e =>
    have hverify : verify K stored head fromSeq toSeq limit = .error e := by
      unfold verify
      simp only [hrange, bind, Except.bind]
    refine ⟨fun _ h => (nomatch h), fun _ => ⟨fun report h => ?_, fun _ pages hlt => ?_⟩⟩
    · cases hverify.symm.trans h
    · obtain ⟨pages, rfl⟩ := Nat.exists_eq_succ_of_ne_zero (by omega : pages ≠ 0)
      rw [followPages, hverify, hrange]
      rfl
  | ok u =>
    cases hlimit : checkLimit (limit.getD defaultVerifyLimit) with
    | error e =>
      have hverify : verify K stored head fromSeq toSeq limit = .error e := by
        unfold verify
        simp only [hrange, hlimit, bind, Except.bind]
      refine ⟨fun _ _ h => (nomatch h), fun _ => ⟨fun report h => ?_, fun h => ?_⟩⟩
      · cases hverify.symm.trans h
      · cases hlimit.symm.trans h
    | ok u =>
      rw [verifies_valid hunique hhead hrange hlimit]
      exact ⟨fun h _ _ => h, fun h => h rfl rfl⟩

/-- The newest of the stored entries is their head, whether or not it is reported. -/
theorem headOf_newest (hash : E → Option String) :
    HeadOf K stored ((newest K.seq stored).bind fun tail =>
      (hash tail).map fun entryHash => (K.seq tail, entryHash)) := by
  intro tail hsome
  obtain ⟨newest, hnewest, hreported⟩ := Option.bind_eq_some_iff.mp hsome
  obtain ⟨entryHash, -, rfl⟩ := Option.map_eq_some_iff.mp hreported
  exact ⟨⟨newest, newest_mem hnewest, rfl⟩,
    fun entry hmem => le_newest hnewest hmem⟩

end NyxId.ChainVerify
