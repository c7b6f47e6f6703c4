import ResilienceKit.Throttle.LuaRuns

/-!
# Throttle.LuaExact — the Redis throttle counts exactly

With one window length for a key, no admission is dropped from its window: the members outlive it
(`dropless_fixed`), so every check that the server can serve decides by all admissions of the window since
the last reset.  The counter has to stay below `10 ^ 14`; beyond it two members of one microsecond are
rendered alike and the second overwrites the first (`busy`).
-/

namespace ResilienceKit.RedisAsyncThrottle

open Mealy Throttle Redis SlidingWindow

variable {W : ℕ} {K : String}

/-- A check with the window `W` that finds the counter below `10 ^ 14`. -/
def Fixed (W : ℕ) (K : String) (us : ℕ) (db : Db) (rate : Rate) : Prop :=
  pyInt rate.perSeconds = W ∧ SeqBelow K us db

theorem dropless_fixed (hW : 0 < W) :
    Dropless W K (Fixed W K) fun L Y => ∀ e ∈ L, clock e.2 + W ≤ Y := by
  have hsec : ∀ {us db rate}, Fixed W K us db rate → seconds rate = W := by
    rintro us db rate ⟨hr, -⟩
    unfold seconds
    omega
  refine ⟨?_, fun hg => hg.2, ?_, by simp, fun h hs e he => h e (hs.subset he), ?_⟩
  · rintro us db rate ⟨hr, -⟩
    omega
  · intro us db rate L n Y hg hst hlast
    rw [hsec hg]
    exact hst.dropsNone_of_lasting hlast
  · intro us db rate L hg hle e he
    rw [hsec hg]
    have := clock_mono (hle e he)
    linarith

/-- One whose deadline the server takes as well. -/
def Served (W : ℕ) (K : String) (us : ℕ) (db : Db) (rate : Rate) : Prop :=
  Fixed W K us db rate ∧ Expirable (clock us) W

/-- The answer to a check when the key has the admissions `adm` since its last reset. -/
def Exact (limit : ℤ) (W us : ℕ) (adm : List ℕ) (a : Ans) : Prop :=
  ∃ r, a = .replied r ∧ (r.allowed ≠ 0 ↔ (adm.countP (win W us) : ℤ) < limit) ∧
    r.count = adm.countP (win W us) + if r.allowed ≠ 0 then 1 else 0

/-- The sorted set holds every admission of the window, at its own score. -/
def Intact (W : ℕ) (K : String) (us : ℕ) (db : Db) (adm : List ℕ) : Prop :=
  ∃ ms, members? (clock us) db K = some ms ∧
    (ms.map Prod.snd).filter (fun s => decide (clock us - W < s)) = (adm.filter (win W us)).map clock

section Tracked

variable {us : ℕ} {db : Db} {adm : List ℕ} {L : List (ℕ × ℕ)} {n : ℕ} {Y : ℚ}

theorem Tracked.intact (h : Tracked W K us db adm L n Y) (hd : DropsNone W K us db W) :
    Intact W K us db adm := by
  refine ⟨_, h.stored.members us, ?_⟩
  have htr := h.rest_tracks hd us le_rfl
  have hself : ((rest W us Y L).map Prod.snd).filter (win W us) = (rest W us Y L).map Prod.snd := by
    rw [List.filter_eq_self]
    intro a ha
    obtain ⟨e, he, rfl⟩ := List.mem_map.mp ha
    exact (List.mem_filter.mp he).2
  rw [← htr, hself, rest, List.map_map, List.filter_map, List.map_map]
  congr 1
  refine List.filter_congr fun e _ => ?_
  rw [Bool.eq_iff_iff, win_iff]
  exact decide_eq_true_iff

theorem Tracked.exact (h : Tracked W K us db adm L n Y) (hd : DropsNone W K us db W)
    (hseq : SeqBelow K us db) (hW : 0 < W) (hx : Expirable (clock us) W) (limit : ℤ) :
    Exact limit W us adm (answer ((SLIDING_WINDOW_LUA us K limit W).run db)).2 := by
  obtain ⟨reply, hout, hallow, hcount⟩ := (h.reply hseq hW limit).2 hx
  rw [h.rest_length hd] at hallow hcount
  exact ⟨reply, hout, hallow, hcount⟩

/-- A check that is let in had room. -/
theorem Tracked.room (h : Tracked W K us db adm L n Y) (hd : DropsNone W K us db W)
    (hseq : SeqBelow K us db) (hW : 0 < W) {limit : ℤ}
    (hallowed : (answer ((SLIDING_WINDOW_LUA us K limit W).run db)).2.allowed = true) :
    (adm.countP (win W us) : ℤ) < limit := by
  rw [← h.rest_length hd]
  exact (h.reply hseq hW limit).1 hallowed

end Tracked

instance (W : ℕ) (K : String) (us : ℕ) (db : Db) (rate : Rate) : Decidable (Served W K us db rate) :=
  inferInstanceAs (Decidable ((_ ∧ SeqBelow K us db) ∧ _))

/-- With one admission in a second: the second check is too early, the third comes when the first has left, and a
reset makes room before its time. -/
def refilled : List (Timed ℕ Op) :=
  [⟨0, .check "k" ⟨1, 1⟩⟩, ⟨500000, .check "k" ⟨1, 1⟩⟩, ⟨1000000, .check "k" ⟨1, 1⟩⟩, ⟨1200000, .reset "k"⟩,
    ⟨1200000, .check "k" ⟨1, 1⟩⟩]

/-- The rate of the run below: one second, one admission more than there are microseconds in it. -/
def busyRate : Rate := ⟨1000001, 1⟩

/-- One check in each of the first `n` microseconds. -/
def busy (n : ℕ) : List (Timed ℕ Op) := (List.range n).map fun i => ⟨i, .check "k" busyRate⟩

/-- The members after `busy n`: those of the last second. -/
def recent (D n : ℕ) : List (ℕ × ℕ) := (List.range' (n - D) (n - (n - D))).map fun j => (j + 1, j)

theorem filter_range' {D n : ℕ} (hD : 0 < D) :
    (List.range' (n - D) (n - (n - D))).filter (fun j => decide (n < j + D)) =
      List.range' (n + 1 - D) (n - (n + 1 - D)) := by
  rcases Nat.lt_or_ge n D with h | h
  · rw [show n - D = 0 by omega, show n + 1 - D = 0 by omega, List.filter_eq_self]
    intro j _
    have : n < j + D := by omega
    simpa using this
  · rw [show n - (n - D) = (n - (n + 1 - D)) + 1 by omega, List.range'_succ,
      List.filter_cons_of_neg (by simp; omega), show n - D + 1 = n + 1 - D by omega,
      List.filter_eq_self]
    intro j hj
    have hle := (List.mem_range'_1.mp hj).1
    have : n < j + D := by omega
    simpa using this

theorem length_recent (D n : ℕ) : (recent D n).length = n - (n - D) := by
  rw [recent, List.length_map, List.length_range']

theorem rest_recent {D n : ℕ} {Y : ℚ} (hD : D = 1000000) (hY : clock n ≤ Y) :
    rest 1 n Y (recent D n) ++ [(n + 1, n)] = recent D (n + 1) := by
  have hwin : (fun e : ℕ × ℕ => win 1 n e.2) ∘ (fun j => (j + 1, j)) =
      fun j => decide (n < j + D) := by
    funext j
    rw [Function.comp_apply, win, hD, one_mul]
  have hpos : 0 < D := by omega
  rw [rest, shown, if_pos hY, recent, List.filter_map, hwin, filter_range' hpos, recent,
    show n + 1 - (n + 1 - D) = (n - (n + 1 - D)) + 1 by omega, List.range'_1_concat,
    List.map_append]
  simp only [List.map_cons, List.map_nil]
  rw [show n + 1 - D + (n - (n + 1 - D)) = n by omega]

theorem busy_succ (n : ℕ) : busy (n + 1) = busy n ++ [⟨n, .check "k" busyRate⟩] := by
  simp [busy, List.range_succ]

/-- The state after `n` busy microseconds: every check was allowed. -/
theorem busy_run (p : String) {D : ℕ} (hD : D = 1000000) (n : ℕ) (hn : n ≤ 10 ^ 14) :
    let M := throttle p
    let db := M.exec M.init (busy n)
    (∃ Y, clock n ≤ Y ∧ Stored (fullKey p "k") (recent D n) n Y db) ∧
      counter? (clock n) db (seqKey (fullKey p "k")) = some (n : ℤ) ∧
      admitted "k" (M.log M.init (busy n)) = List.range n := by
  intro M
  induction n with
  | zero =>
    have hnil : recent D 0 = [] := by simp [recent]
    rw [hnil]
    exact ⟨⟨0, by simp [clock], ⟨rfl, .inr ⟨rfl, .inl rfl⟩, List.Pairwise.nil, by simp⟩⟩, rfl, rfl⟩
  | succ n ih =>
    obtain ⟨⟨Y, hY, hst⟩, hcount, hadm⟩ := ih (by omega)
    have hseq : SeqBelow (fullKey p "k") n (M.exec M.init (busy n)) := by
      intro m hm
      rw [hcount] at hm
      obtain rfl := Option.some.inj hm
      omega
    have hlen : ((rest 1 n Y (recent D n)).length : ℤ) < 1000001 := by
      have h := congrArg List.length (rest_recent hD hY)
      rw [List.length_append, List.length_singleton, length_recent] at h
      omega
    have hx : Expirable (clock n) (1 : ℕ) := by
      rw [expirable_clock (by decide)]
      omega
    obtain ⟨m, hm, db', hrun, hst'⟩ := hst.admit hseq (W := 1) (by omega) hx hlen
    rw [hcount] at hm
    obtain rfl : n = m := by exact_mod_cast Option.some.inj hm
    rw [rest_recent hD hY] at hst'
    have heval : (eval p n "k" busyRate).run (M.exec M.init (busy n)) =
        .ok ⟨1, (rest 1 n Y (recent D n)).length + 1, 1⟩ db' := hrun
    have hnext : M.exec M.init (busy (n + 1)) = db' := by
      rw [busy_succ, exec_concat, next_check, heval]
      rfl
    have hout : M.out (M.exec M.init (busy n)) ⟨n, .check "k" busyRate⟩ =
        .replied ⟨1, (rest 1 n Y (recent D n)).length + 1, 1⟩ := by
      show (answer _).2 = _
      rw [heval]
      rfl
    have hlive : clock (n + 1) ≤ clock n + (1 : ℕ) := by
      unfold clock
      push_cast
      linarith
    have hne : recent D (n + 1) ≠ [] := by
      rw [← rest_recent hD hY]
      simp
    rw [hnext]
    refine ⟨⟨_, hlive, hst'⟩, hst'.counter_eq hne hlive, ?_⟩
    rw [busy_succ, log_concat, admitted, admissions_check rfl, record_out, record_ev, hout]
    rw [admitted] at hadm
    rw [hadm, List.range_succ]
    rfl

theorem recent_covers {D n j : ℕ} (h : n - D ≤ j) (hj : j < n) : (j + 1, j) ∈ recent D n := by
  refine List.mem_map.mpr ⟨j, List.mem_range'_1.mpr ⟨h, ?_⟩, rfl⟩
  omega

theorem rest_recent_last {D n : ℕ} {Y : ℚ} (hD : D = 1000000) (hn : D ≤ n + 1)
    (hY : clock n ≤ Y) : rest 1 n Y (recent D (n + 1)) = recent D (n + 1) := by
  rw [rest, shown, if_pos hY, List.filter_eq_self]
  intro e he
  obtain ⟨j, hj, rfl⟩ := List.mem_map.mp he
  have hle := (List.mem_range'_1.mp hj).1
  have : n < j + 1 * 1000000 := by omega
  simpa [win] using this

/-- The admissions of the last second, after the busy run and one more check in its last
microsecond. -/
theorem countP_range_last {D n : ℕ} (hD : D = 1000000) (hn : D ≤ n + 1) :
    (List.range (n + 1) ++ [n]).countP (win 1 n) = D + 1 := by
  have hsplit : List.range (n + 1) =
      List.range' 0 (n + 1 - D) ++ List.range' (n + 1 - D) D := by
    have happ : List.range' 0 (n + 1 - D) ++ List.range' (0 + (n + 1 - D)) D =
        List.range' 0 (n + 1 - D + D) := List.range'_append_1
    rw [Nat.zero_add, show n + 1 - D + D = n + 1 by omega] at happ
    rw [List.range_eq_range', happ]
  have hold : (List.range' 0 (n + 1 - D)).countP (win 1 n) = 0 := by
    rw [List.countP_eq_zero]
    intro j hj hw
    have hlt := (List.mem_range'_1.mp hj).2
    have : n < j + 1 * 1000000 := by simpa [win] using hw
    omega
  have hnew : (List.range' (n + 1 - D) D).countP (win 1 n) = D := by
    have hall : ∀ j ∈ List.range' (n + 1 - D) D, win 1 n j = true := by
      intro j hj
      have hle := (List.mem_range'_1.mp hj).1
      have : n < j + 1 * 1000000 := by omega
      simpa [win] using this
    rw [List.countP_eq_length.mpr hall, List.length_range']
  have hlast : win 1 n n = true := by simp [win]
  rw [hsplit, List.countP_append, List.countP_append, hold, hnew, List.countP_singleton, hlast]
  simp

/-- The check that finds the counter at `10 ^ 14` overwrites the member of its microsecond. -/
theorem busy_overwrites (p : String) {D n : ℕ} (hD : D = 1000000) (hn : n + 1 = 10 ^ 14) :
    let M := throttle p
    let db := M.exec M.init (busy (n + 1))
    ∃ db', (eval p n "k" busyRate).run db = .ok ⟨1, D + 1, 1⟩ db' ∧
      (∃ m, counter? (clock n) db' (seqKey (fullKey p "k")) = some m) ∧
      ∃ ms, members? (clock n) db' (fullKey p "k") = some ms ∧ ms.length = D := by
  intro M db
  obtain ⟨⟨Y, hY, hst⟩, -, -⟩ := busy_run p hD (n + 1) hn.le
  have hYn : clock n ≤ Y := (clock_mono (Nat.le_succ n)).trans hY
  have hDn : D ≤ n + 1 := by omega
  have hrest := rest_recent_last hD hDn hYn
  have hlen : (recent D (n + 1)).length = D := by
    rw [length_recent]
    omega
  have hlast : (n + 1, n) ∈ recent D (n + 1) := recent_covers (by omega) (by omega)
  have hkept : kept (clock n) (1 : ℕ) ((shown n Y (recent D (n + 1))).map entry) =
      (recent D (n + 1)).map entry := by
    rw [kept_entry]
    exact congrArg (List.map entry) hrest
  have hcount := hst.counter_eq (List.ne_nil_of_mem hlast) hYn
  have hx : Expirable (clock n) (1 : ℕ) := by
    rw [expirable_clock (by decide)]
    omega
  obtain ⟨db', hrun, hz, hs⟩ := admits 1000001 (1 : ℕ) (hst.members n) hcount hx (by decide)
    (by rw [hkept, List.length_map, hlen]; omega)
  rw [hkept, List.length_map, hlen] at hrun
  have hlive : clock n ≤ clock n + ((1 : ℕ) : ℤ) := by
    push_cast
    linarith
  have hvs := visible_eq_some.mpr ⟨hs, live_some.mpr hlive⟩
  have hvz := visible_eq_some.mpr ⟨hz, live_some.mpr hlive⟩
  rw [hkept] at hvz
  refine ⟨db', hrun, ⟨_, by rw [counter?, hvs]; exact if_pos (Rat.den_intCast _)⟩, _,
    by rw [members?, hvz], ?_⟩
  rw [length_insertMember, List.length_map, hlen]
  -- the counter value `10 ^ 14 + 1` is rendered like the one before
  refine List.mem_map.mpr ⟨_, List.mem_map_of_mem hlast, ?_⟩
  show member (clock n) ((n + 1 : ℕ) : ℤ) = member (clock n) (((n + 1 : ℕ) : ℤ) + 1)
  have h1 : (((n + 1 : ℕ) : ℤ) : ℚ) = ((10 ^ 14 : ℕ) : ℚ) := by rw [hn, Int.cast_natCast]
  have h2 : ((((n + 1 : ℕ) : ℤ) + 1 : ℤ) : ℚ) = ((10 ^ 14 + 1 : ℕ) : ℚ) := by
    rw [hn]
    push_cast
    rfl
  rw [member, member, h1, h2, Lua.tostring_collides]

theorem busy_exceeds (p : String) {D n : ℕ} (hD : D = 1000000) (hn : n + 1 = 10 ^ 14) :
    let M := throttle p
    let es := busy (n + 1) ++ [⟨n, .check "k" busyRate⟩]
    ((admitted "k" (M.log M.init es)).countP (win 1 n) : ℤ) = busyRate.count ∧
      (M.out (M.exec M.init es) ⟨n, .check "k" busyRate⟩).allowed = true := by
  intro M es
  obtain ⟨-, -, hadm⟩ := busy_run p hD (n + 1) hn.le
  obtain ⟨db', hrun, ⟨m, hm⟩, ms, hms, hlen⟩ := busy_overwrites p hD hn
  have hexec : M.exec M.init es = db' := by
    rw [exec_concat, next_check, hrun]
    rfl
  have hout : M.out (M.exec M.init (busy (n + 1))) ⟨n, .check "k" busyRate⟩ =
      .replied ⟨1, D + 1, 1⟩ := by
    show (answer _).2 = _
    rw [hrun]
    rfl
  constructor
  · rw [log_concat, admitted, admissions_check rfl, record_out, record_ev, hout]
    rw [admitted] at hadm
    rw [hadm]
    show ((List.range (n + 1) ++ [n]).countP (win 1 n) : ℤ) = 1000001
    rw [countP_range_last hD (by omega), hD]
    rfl
  · have hkept : ((kept (clock n) 1 ms).length : ℤ) < 1000001 := by
      have := List.length_filter_le (fun m => decide (¬ (0 ≤ m.2 ∧ m.2 ≤ clock n - (1 : ℤ)))) ms
      rw [kept]
      omega
    have hx : Expirable (clock n) 1 := by
      rw [expirable_clock (by decide)]
      omega
    obtain ⟨db'', hrun', -, -⟩ := admits 1000001 1 hms hm hx (by decide) hkept
    have heval : (eval p n "k" busyRate).run db' =
        .ok ⟨1, (kept (clock n) 1 ms).length + 1, 1⟩ db'' := hrun'
    rw [hexec]
    show (answer ((eval p n "k" busyRate).run db')).2.allowed = true
    rw [heval]
    rfl

end ResilienceKit.RedisAsyncThrottle
