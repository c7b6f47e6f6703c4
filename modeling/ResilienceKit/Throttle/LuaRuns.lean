import Mathlib.Tactic.Positivity
import ResilienceKit.Throttle.LuaScript

/-!
# Throttle.LuaRuns — whole runs of the Redis throttle

`Stored` is the shape of the two entries of a key after any run: the members carry increasing counter
values, so a fresh member is new as long as the rendering tells the values apart, which it does below
`10 ^ 14` (`SeqBelow`).  `key_induct` is the induction on a run seen from one key and `stored_check`
the step lemma; a run that drops nothing from a window shows that window exactly (`shown_run`).
-/

namespace ResilienceKit.RedisAsyncThrottle

open Mealy Throttle Redis SlidingWindow

/-! ### Keys and members -/

theorem fullKey_inj {p k k' : String} : fullKey p k = fullKey p k' ↔ k = k' := by
  unfold fullKey
  exact String.append_right_inj _

theorem seqKey_fullKey (p k : String) : seqKey (fullKey p k) = fullKey p (seqKey k) := by
  unfold seqKey fullKey
  exact String.append_assoc

theorem member_inj {a b : ℚ} {m n : ℕ} (hm : m ≤ 10 ^ 14) (hn : n ≤ 10 ^ 14)
    (h : member a (m : ℤ) = member b (n : ℤ)) : m = n := by
  have hl := congrArg String.toList h
  unfold member at hl
  simp only [String.toList_append, List.append_assoc] at hl
  -- the first colon ends the rendered time
  have hsplit := (List.append_cons_inj_of_notMem (Lua.colon_notMem_tostring _)
    (Lua.colon_notMem_tostring _)).mp hl.symm
  have hs : Lua.tostring ((m : ℤ) : ℚ) = Lua.tostring ((n : ℤ) : ℚ) :=
    String.toList_inj.mp hsplit.2.2.symm
  rw [Int.cast_natCast, Int.cast_natCast] at hs
  exact Lua.tostring_natCast_inj hm hn hs

/-- The member of the admission with counter value `e.1` at the time `e.2`. -/
def entry (e : ℕ × ℕ) : String × ℚ := (member (clock e.2) (e.1 : ℤ), clock e.2)

/-- The window `(t - W, t]`, in microseconds. -/
def win (W : ℕ) (t a : ℕ) : Bool := decide (t < a + W * 1000000)

theorem leaving_win (W : ℕ) : Window.Leaving (win W) := by
  intro t t' a ht h
  have h' : t' < a + W * 1000000 := by simpa [win] using h
  have : t < a + W * 1000000 := by omega
  simpa [win] using this

theorem win_iff {W t a : ℕ} : win W t a = true ↔ clock t - W < clock a := by
  unfold win clock
  rw [decide_eq_true_iff]
  constructor
  · intro h
    have h' : (t : ℚ) < a + W * 1000000 := by exact_mod_cast h
    linarith
  · intro h
    have h' : (t : ℚ) < ((a + W * 1000000 : ℕ) : ℚ) := by
      push_cast
      linarith
    exact_mod_cast h'

theorem kept_entry (W us : ℕ) (L : List (ℕ × ℕ)) :
    kept (clock us) W (L.map entry) = (L.filter fun e => win W us e.2).map entry := by
  unfold kept
  rw [List.filter_map]
  congr 1
  refine List.filter_congr fun e _ => ?_
  have h0 := clock_nonneg e.2
  rw [Function.comp_apply, Bool.eq_iff_iff, win_iff, decide_eq_true_iff]
  show ¬ (0 ≤ clock e.2 ∧ clock e.2 ≤ clock us - ((W : ℤ) : ℚ)) ↔ clock us - W < clock e.2
  rw [Int.cast_natCast]
  constructor
  · intro h
    by_contra hlt
    exact h ⟨h0, not_lt.mp hlt⟩
  · rintro h ⟨-, h2⟩
    exact absurd h (not_lt.mpr h2)

/-! ### The entries of one key -/

/-- The two entries of the key `K`: members with increasing counter values up to `n`, both entries
with the deadline `Y`; without members the counter may stand at anything up to `n`, or be missing. -/
structure Stored (K : String) (L : List (ℕ × ℕ)) (n : ℕ) (Y : ℚ) (db : Db) : Prop where
  zset : db K = zentry (L.map entry) (some Y)
  seq : db (seqKey K) = some ⟨.str (.num n), some Y⟩ ∨
    L = [] ∧ (db (seqKey K) = none ∨ ∃ x, db (seqKey K) = some ⟨.str (.num n), x⟩)
  ordered : (L.map Prod.fst).Pairwise (· < ·)
  le : ∀ e ∈ L, e.1 ≤ n

/-- What is left of `L` after the deadline `Y`. -/
def shown (us : ℕ) (Y : ℚ) (L : List (ℕ × ℕ)) : List (ℕ × ℕ) := if clock us ≤ Y then L else []

/-- What a check with a window of `W` finds after pruning. -/
def rest (W us : ℕ) (Y : ℚ) (L : List (ℕ × ℕ)) : List (ℕ × ℕ) :=
  (shown us Y L).filter fun e => win W us e.2

theorem rest_sublist (W us : ℕ) (Y : ℚ) (L : List (ℕ × ℕ)) : (rest W us Y L).Sublist L := by
  refine List.filter_sublist.trans ?_
  unfold shown
  split_ifs
  · exact List.Sublist.refl _
  · exact List.nil_sublist _

section Stored

variable {K : String} {L : List (ℕ × ℕ)} {n us : ℕ} {Y : ℚ} {db : Db}

theorem Stored.members (h : Stored K L n Y db) (us : ℕ) :
    members? (clock us) db K = some ((shown us Y L).map entry) := by
  unfold shown
  split_ifs with hY
  · exact members?_zentry (live_some.mpr hY) h.zset
  · have hnone : visible (clock us) db K = none := by
      rw [visible_eq_none]
      intro e he
      rw [h.zset, zentry] at he
      split_ifs at he
      obtain rfl := Option.some.inj he
      simpa [live] using hY
    simp [members?, hnone]

/-- An entry that holds the number `n` shows it, or has expired. -/
theorem counter?_num {x : Option ℚ} (h : db K = some ⟨.str (.num n), x⟩) (us : ℕ) :
    counter? (clock us) db K = some (n : ℤ) ∨ counter? (clock us) db K = some 0 := by
  cases hv : visible (clock us) db K with
  | none => exact .inr (by simp [counter?, hv])
  | some e =>
    have he := (visible_eq_some.mp hv).1
    rw [h] at he
    obtain rfl := Option.some.inj he
    exact .inl (by simp [counter?, hv])

theorem Stored.counter (h : Stored K L n Y db) (us : ℕ) :
    ∃ m : ℕ, counter? (clock us) db (seqKey K) = some (m : ℤ) ∧ m ≤ n ∧ ∀ e ∈ shown us Y L, e.1 ≤ m := by
  unfold shown
  rcases h.seq with hs | ⟨rfl, hs | ⟨x, hs⟩⟩
  · split_ifs with hY
    · have hv : visible (clock us) db (seqKey K) = some ⟨.str (.num n), some Y⟩ :=
        visible_eq_some.mpr ⟨hs, live_some.mpr hY⟩
      exact ⟨n, by simp [counter?, hv], le_rfl, h.le⟩
    · rcases counter?_num hs us with hm | hm
      · exact ⟨n, hm, le_rfl, by simp⟩
      · exact ⟨0, hm, Nat.zero_le n, by simp⟩
  · exact ⟨0, by simp [counter?, visible_none hs], Nat.zero_le n, by simp⟩
  · rcases counter?_num hs us with hm | hm
    · exact ⟨n, hm, le_rfl, by simp⟩
    · exact ⟨0, hm, Nat.zero_le n, by simp⟩

theorem Stored.counter_eq (h : Stored K L n Y db) (hne : L ≠ []) (hY : clock us ≤ Y) :
    counter? (clock us) db (seqKey K) = some (n : ℤ) := by
  rcases h.seq with hs | ⟨hnil, -⟩
  · have hv : visible (clock us) db (seqKey K) = some ⟨.str (.num n), some Y⟩ :=
      visible_eq_some.mpr ⟨hs, live_some.mpr hY⟩
    rw [counter?, hv]
    simp
  · exact absurd hnil hne

theorem Stored.deadline (h : Stored K L n Y db) (hne : shown us Y L ≠ []) :
    deadline (clock us) db K = some Y := by
  unfold shown at hne
  split_ifs at hne with hY
  · exact deadline_zentry (live_some.mpr hY) h.zset (by simpa using hne)
  · exact absurd rfl hne

/-- The counter a check finds is below `10 ^ 14`. -/
def SeqBelow (K : String) (us : ℕ) (db : Db) : Prop :=
  ∀ m, counter? (clock us) db (seqKey K) = some m → m < 10 ^ 14

instance (K : String) (us : ℕ) (db : Db) : Decidable (SeqBelow K us db) :=
  decidable_of_iff (∀ m ∈ counter? (clock us) db (seqKey K), m < 10 ^ 14) Iff.rfl

/-- **A denied check** prunes. -/
theorem Stored.deny (h : Stored K L n Y db) {W : ℕ} {limit : ℤ}
    (hc : limit ≤ ((rest W us Y L).length : ℤ)) :
    ∃ ttl db', (SLIDING_WINDOW_LUA us K limit W).run db = .ok ⟨0, (rest W us Y L).length, ttl⟩ db' ∧
      Stored K (rest W us Y L) n Y db' := by
  have hk := kept_entry W us (shown us Y L)
  have hlen : (kept (clock us) W ((shown us Y L).map entry)).length = (rest W us Y L).length := by
    rw [hk, List.length_map]
    rfl
  obtain ⟨ttl, hrun, -⟩ := denies limit (W : ℤ) (h.members us) (by rw [hlen]; exact hc)
  rw [hlen] at hrun
  refine ⟨ttl, _, hrun, ?_, ?_, ?_, fun e he => h.le e ((rest_sublist ..).subset he)⟩
  · rw [Function.update_self, hk]
    show zentry ((rest W us Y L).map entry) _ = _
    by_cases hne : shown us Y L = []
    · have : rest W us Y L = [] := by simp [rest, hne]
      simp [this, zentry]
    · rw [h.deadline hne]
  · rw [Function.update_of_ne (seqKey_ne K)]
    rcases h.seq with hs | ⟨rfl, hs⟩
    · exact .inl hs
    · exact .inr ⟨List.sublist_nil.mp (rest_sublist ..), hs⟩
  · exact h.ordered.sublist ((rest_sublist ..).map _)

/-- **An allowed check** prunes and adds a member of its own. -/
theorem Stored.admit (h : Stored K L n Y db) (hseq : SeqBelow K us db) {W : ℕ} (hW : 0 < W)
    (hx : Expirable (clock us) W) {limit : ℤ} (hc : ((rest W us Y L).length : ℤ) < limit) :
    ∃ m : ℕ, counter? (clock us) db (seqKey K) = some (m : ℤ) ∧
      ∃ db', (SLIDING_WINDOW_LUA us K limit W).run db =
          .ok ⟨1, (rest W us Y L).length + 1, W⟩ db' ∧
        Stored K (rest W us Y L ++ [(m + 1, us)]) (m + 1) (clock us + W) db' := by
  have hk := kept_entry W us (shown us Y L)
  have hlen : (kept (clock us) W ((shown us Y L).map entry)).length = (rest W us Y L).length := by
    rw [hk, List.length_map]
    rfl
  obtain ⟨m, hm, -, hle⟩ := h.counter us
  have hmlt : m < 10 ^ 14 := by
    have := hseq m hm
    omega
  have hrle : ∀ e ∈ rest W us Y L, e.1 ≤ m := fun e he => hle e (List.mem_of_mem_filter he)
  obtain ⟨db', hrun, hz, hs⟩ := admits limit (W : ℤ) (h.members us) hm hx (by omega)
    (by rw [hlen]; exact hc)
  rw [hlen] at hrun
  have hfresh : member (clock us) ((m : ℤ) + 1) ∉ ((rest W us Y L).map entry).map Prod.fst := by
    intro hmem
    rw [List.map_map, List.mem_map] at hmem
    obtain ⟨e, he, heq⟩ := hmem
    have hlt := hrle e he
    have heq' : member (clock e.2) (e.1 : ℤ) = member (clock us) ((m + 1 : ℕ) : ℤ) := by
      push_cast
      exact heq
    have := member_inj (by omega) (by omega) heq'
    omega
  refine ⟨m, hm, db', hrun, ?_, .inl ?_, ?_, ?_⟩
  · rw [hz, hk, zentry, if_neg (by simp), List.map_append]
    show some (Entry.mk (.zset (insertMember _ _ ((rest W us Y L).map entry))) _) = _
    rw [insertMember_new hfresh, Int.cast_natCast]
    simp [entry]
  · rw [hs, Int.cast_natCast]
    push_cast
    rfl
  · rw [List.map_append, List.pairwise_append]
    refine ⟨h.ordered.sublist ((rest_sublist ..).map _), by simp, fun a ha b hb => ?_⟩
    obtain ⟨e, he, rfl⟩ := List.mem_map.mp ha
    obtain rfl : b = m + 1 := by simpa using hb
    have := hrle e he
    omega
  · intro e he
    rcases List.mem_append.mp he with he | he
    · have := hrle e he
      omega
    · rw [List.mem_singleton.mp he]

/-- **A refused check** prunes, and counts without a member. -/
theorem Stored.refuse (h : Stored K L n Y db) {W : ℕ} (hx : ¬ Expirable (clock us) W) {limit : ℤ}
    (hc : ((rest W us Y L).length : ℤ) < limit) :
    ∃ db' n', (SLIDING_WINDOW_LUA us K limit W).run db = .error .invalidExpire db' ∧
      Stored K (rest W us Y L) n' Y db' ∧ n' ≤ n + 1 := by
  have hk := kept_entry W us (shown us Y L)
  have hlen : (kept (clock us) W ((shown us Y L).map entry)).length = (rest W us Y L).length := by
    rw [hk, List.length_map]
    rfl
  obtain ⟨m, hm, hmn, hle⟩ := h.counter us
  obtain ⟨db', hrun, hz, hs⟩ := refuses limit (h.members us) hm hx (by rw [hlen]; exact hc)
  have hsucc : (((m : ℤ) + 1 : ℤ) : ℚ) = ((m + 1 : ℕ) : ℚ) := by push_cast; rfl
  rw [hsucc] at hs
  refine ⟨db', m + 1, hrun, ⟨?_, ?_, h.ordered.sublist ((rest_sublist ..).map _), fun e he => ?_⟩, by omega⟩
  · rw [hz, hk]
    show zentry ((rest W us Y L).map entry) _ = _
    by_cases hne : shown us Y L = []
    · have : rest W us Y L = [] := by simp [rest, hne]
      simp [this, zentry]
    · rw [h.deadline hne]
  · by_cases hne : shown us Y L = []
    · exact .inr ⟨by simp [rest, hne], .inr ⟨_, hs⟩⟩
    · -- the counter is live with the members, and keeps their deadline
      have hL : L ≠ [] := by
        rintro rfl
        simp [shown] at hne
      have hY : clock us ≤ Y := by
        by_contra hlt
        rw [shown, if_neg hlt] at hne
        exact hne rfl
      have hseq := h.seq.resolve_right fun hnil => hL hnil.1
      have hd : Redis.deadline (clock us) db (seqKey K) = some Y := by
        rw [Redis.deadline, visible_eq_some.mpr ⟨hseq, live_some.mpr hY⟩]
        rfl
      rw [hd] at hs
      exact .inl hs
  · have := hle e (List.mem_of_mem_filter he)
    omega

end Stored

/-! ### What the entries know of the admissions -/

/-- A check at `us` with a window of `W'` neither prunes nor finds expired a member that a window of
length `W` holds. -/
def DropsNone (W : ℕ) (K : String) (us : ℕ) (db : Db) (W' : ℕ) : Prop :=
  ∀ ms x, db K = some ⟨.zset ms, x⟩ → ∀ m ∈ ms, clock us - W < m.2 →
    live (clock us) ⟨.zset ms, x⟩ = true ∧ clock us - W' < m.2

/-- The members of a sorted set, whether it has expired or not. -/
def zset? : Entry → Option (List (String × ℚ))
  | ⟨.zset ms, _⟩ => some ms
  | _ => none

instance (W : ℕ) (K : String) (us : ℕ) (db : Db) (W' : ℕ) : Decidable (DropsNone W K us db W') :=
  decidable_of_iff (∀ e ∈ db K, ∀ ms ∈ zset? e, ∀ m ∈ ms, clock us - W < m.2 →
      live (clock us) e = true ∧ clock us - W' < m.2) <| by
    constructor
    · intro h ms x hdb
      exact h _ hdb ms rfl
    · intro h e he ms hms
      obtain ⟨v, x⟩ := e
      cases v with
      | zset ms' =>
        obtain rfl := Option.some.inj hms
        exact h _ x he
      | _ => cases hms

/-- The entries of `K` show the windows of length `W` of the admissions `adm`, now and later. -/
structure Tracked (W : ℕ) (K : String) (now : ℕ) (db : Db) (adm : List ℕ) (L : List (ℕ × ℕ)) (n : ℕ)
    (Y : ℚ) : Prop where
  stored : Stored K L n Y db
  le_now : ∀ e ∈ L, e.2 ≤ now
  tracks : Window.Tracks (win W) now (L.map Prod.snd) adm

section Tracked

variable {W W' us : ℕ} {K : String} {db : Db} {adm : List ℕ} {L : List (ℕ × ℕ)} {n : ℕ} {Y : ℚ}

theorem Stored.dropsNone (h : Stored K L n Y db) (hd : DropsNone W K us db W') {e : ℕ × ℕ}
    (he : e ∈ L) (hw : win W us e.2 = true) : clock us ≤ Y ∧ win W' us e.2 = true := by
  have hne : L.map entry ≠ [] := by
    intro hnil
    rw [List.map_eq_nil_iff.mp hnil] at he
    simp at he
  have hdb := h.zset
  rw [zentry, if_neg hne] at hdb
  obtain ⟨hl, hlt⟩ := hd _ _ hdb (entry e) (List.mem_map_of_mem he) (win_iff.mp hw)
  exact ⟨live_some.mp hl, win_iff.mpr hlt⟩

/-- Members that outlive the window are dropped from none. -/
theorem Stored.dropsNone_of_lasting (h : Stored K L n Y db) (hlast : ∀ e ∈ L, clock e.2 + W ≤ Y) :
    DropsNone W K us db W := by
  intro ms x hdb m hm hlt
  rw [h.zset, zentry] at hdb
  split_ifs at hdb
  cases hdb
  obtain ⟨e, he, rfl⟩ := List.mem_map.mp hm
  have hY := hlast e he
  have hlt' : clock us - W < clock e.2 := hlt
  exact ⟨live_some.mpr (by linarith), hlt⟩

/-- What a check leaves shows the windows of length `W` unless it drops a member from one. -/
theorem Tracked.rest_tracks (h : Tracked W K us db adm L n Y) (hd : DropsNone W K us db W') :
    Window.Tracks (win W) us ((rest W' us Y L).map Prod.snd) adm := by
  by_cases hY : clock us ≤ Y
  · have hmap : (rest W' us Y L).map Prod.snd =
        (L.map Prod.snd).filter (win W' us) := by
      rw [rest, shown, if_pos hY, List.filter_map]
      rfl
    rw [hmap]
    refine h.tracks.prune fun t ht a ha hw => ?_
    obtain ⟨e, he, rfl⟩ := List.mem_map.mp ha
    exact (h.stored.dropsNone hd he (leaving_win W ht hw)).2
  · intro t ht
    have hempty : (L.map Prod.snd).filter (win W t) = [] := by
      rw [List.filter_eq_nil_iff]
      intro a ha hw
      obtain ⟨e, he, rfl⟩ := List.mem_map.mp ha
      exact hY (h.stored.dropsNone hd he (leaving_win W ht hw)).1
    rw [← h.tracks t ht, hempty, rest, shown, if_neg hY]
    rfl

/-- **Step lemma** for a check. -/
theorem Tracked.check (h : Tracked W K us db adm L n Y) (hd : DropsNone W K us db W')
    (hseq : SeqBelow K us db) (hW : 0 < W') (limit : ℤ) :
    ∃ L' n' Y', Tracked W K us (final ((SLIDING_WINDOW_LUA us K limit W').run db))
        (adm ++ if (answer ((SLIDING_WINDOW_LUA us K limit W').run db)).2.allowed = true then [us] else [])
        L' n' Y' ∧
      (L'.Sublist L ∧ Y' = Y ∨ Y' = clock us + W') := by
  have hle : ∀ e ∈ rest W' us Y L, e.2 ≤ us :=
    fun e he => h.le_now e ((rest_sublist ..).subset he)
  by_cases hc : ((rest W' us Y L).length : ℤ) < limit
  · by_cases hx : Expirable (clock us) W'
    · obtain ⟨m, -, db', hrun, hst⟩ := h.stored.admit hseq hW hx hc
      rw [hrun]
      refine ⟨_, m + 1, _, ⟨hst, ?_, ?_⟩, .inr rfl⟩
      · intro e he
        rcases List.mem_append.mp he with he | he
        · exact hle e he
        · rw [List.mem_singleton.mp he]
      · rw [List.map_append]
        exact (h.rest_tracks hd).concat us
    · obtain ⟨db', n', hrun, hst, -⟩ := h.stored.refuse hx hc
      rw [hrun]
      refine ⟨_, n', Y, ⟨hst, hle, ?_⟩, .inl ⟨rest_sublist .., rfl⟩⟩
      simpa [answer, Ans.allowed] using h.rest_tracks hd
  · obtain ⟨ttl, db', hrun, hst⟩ := h.stored.deny (W := W') (not_lt.mp hc)
    rw [hrun]
    refine ⟨_, n, Y, ⟨hst, hle, ?_⟩, .inl ⟨rest_sublist .., rfl⟩⟩
    simpa [answer, Ans.allowed] using h.rest_tracks hd

/-- What a check is told: whether there is room among what it has not pruned, and, where the server takes its
lifetime, how many there are. -/
theorem Tracked.reply (h : Tracked W K us db adm L n Y) (hseq : SeqBelow K us db) (hW : 0 < W') (limit : ℤ) :
    ((answer ((SLIDING_WINDOW_LUA us K limit W').run db)).2.allowed = true →
        ((rest W' us Y L).length : ℤ) < limit) ∧
      (Expirable (clock us) W' → ∃ reply, (answer ((SLIDING_WINDOW_LUA us K limit W').run db)).2 = .replied reply ∧
        (reply.allowed ≠ 0 ↔ ((rest W' us Y L).length : ℤ) < limit) ∧
        reply.count = (rest W' us Y L).length + if reply.allowed ≠ 0 then 1 else 0) := by
  by_cases hc : ((rest W' us Y L).length : ℤ) < limit
  · refine ⟨fun _ => hc, fun hx => ?_⟩
    obtain ⟨m, -, db', hrun, -⟩ := h.stored.admit hseq hW hx hc
    rw [hrun]
    exact ⟨_, rfl, by simpa using hc, by simp⟩
  · obtain ⟨ttl, db', hrun, -⟩ := h.stored.deny (W := W') (not_lt.mp hc)
    rw [hrun]
    exact ⟨fun hallowed => by simp [answer, Ans.allowed] at hallowed,
      fun _ => ⟨_, rfl, by simpa using hc, by simp⟩⟩

/-- When the window of the check is the tracked one, it counts the admissions in it. -/
theorem Tracked.rest_length (h : Tracked W K us db adm L n Y) (hd : DropsNone W K us db W) :
    (rest W us Y L).length = adm.countP (win W us) := by
  have hall : (rest W us Y L).countP (fun e => win W us e.2) =
      (rest W us Y L).length :=
    List.countP_eq_length.mpr fun e he => (List.mem_filter.mp he).2
  have hcount := (h.rest_tracks hd).countP_eq le_rfl
  rw [List.countP_map] at hcount
  rw [← hall, ← hcount]
  rfl

end Tracked

/-! ### Runs seen from one key -/

/-- The admissions of a history. -/
abbrev admitted (key : String) (h : List Rec) : List ℕ := admissions Ans.allowed key h

variable {p key : String} {es : List (Timed ℕ Op)} {now : ℕ}

/-- No caller key is the counter of another one. -/
def Apart (key : String) (es : List (Timed ℕ Op)) : Prop :=
  ∀ e ∈ es, e.ev.key ≠ seqKey key ∧ key ≠ seqKey e.ev.key

/-- Every check of `key` in a run meets the guard `G` on its time, the keyspace it finds and its
rate. -/
def Uses (G : ℕ → Db → Rate → Prop) (p key : String) (es : List (Timed ℕ Op)) : Prop :=
  (throttle p).Along (fun _ db e => ∀ rate, e.ev = .check key rate → G e.time db rate)
    (throttle p).init es

theorem admitted_le (hnow : ∀ e ∈ es, e.time ≤ now) :
    ∀ a ∈ admitted key ((throttle p).log (throttle p).init es), a ≤ now := by
  intro a ha
  obtain ⟨r, hr, rfl⟩ := mem_grants ha
  have hmem : r.ev ∈ ((throttle p).log (throttle p).init es).map Step.ev := List.mem_map_of_mem hr
  rw [log_map_ev] at hmem
  exact hnow _ hmem

theorem answer_fst (r : EStateM.Result Redis.Error Db Reply) : (answer r).1 = final r := by
  cases r <;> rfl

theorem next_reset (db : Db) (t : ℕ) (key : String) :
    (throttle p).next db ⟨t, .reset key⟩ = Function.update db (fullKey p key) none := by
  show final ((del (clock t) (fullKey p key)).run db) = _
  unfold del
  rw [get_bind, bind_ok (assign_run _ _ _)]
  rfl

theorem next_check (db : Db) (t : ℕ) (key : String) (rate : Rate) :
    (throttle p).next db ⟨t, .check key rate⟩ = final ((eval p t key rate).run db) :=
  answer_fst _

/-- Frame: an operation on another key leaves both entries of `key` alone. -/
theorem next_other (db : Db) {e : Timed ℕ Op} (hk : e.ev.key ≠ key)
    (ha : e.ev.key ≠ seqKey key ∧ key ≠ seqKey e.ev.key) :
    (throttle p).next db e (fullKey p key) = db (fullKey p key) ∧
      (throttle p).next db e (seqKey (fullKey p key)) = db (seqKey (fullKey p key)) := by
  have h1 : fullKey p key ≠ fullKey p e.ev.key := fun h => hk (fullKey_inj.mp h).symm
  have h2 : seqKey (fullKey p key) ≠ fullKey p e.ev.key := by
    rw [seqKey_fullKey]
    exact fun h => ha.1 (fullKey_inj.mp h).symm
  have h3 : fullKey p key ≠ seqKey (fullKey p e.ev.key) := by
    rw [seqKey_fullKey]
    exact fun h => ha.2 (fullKey_inj.mp h)
  have h4 : seqKey (fullKey p key) ≠ seqKey (fullKey p e.ev.key) := by
    intro h
    exact h1 (String.append_left_inj _ |>.mp h)
  obtain ⟨t, op⟩ := e
  cases op with
  | check k rate =>
    rw [next_check]
    exact ⟨keeps h1 h3 db, keeps h2 h4 db⟩
  | reset k =>
    rw [next_reset]
    exact ⟨Function.update_of_ne h1 _ _, Function.update_of_ne h2 _ _⟩

/-- **Induction on a run, seen from one key.**  `P now db adm` relates the entries of the key to its
admissions at every time the run has not passed. -/
theorem key_induct {G : ℕ → Db → Rate → Prop} {P : ℕ → Db → List ℕ → Prop}
    (h0 : ∀ now, P now (fun _ => none) [])
    (hother : ∀ now db db' adm, db' (fullKey p key) = db (fullKey p key) →
      db' (seqKey (fullKey p key)) = db (seqKey (fullKey p key)) → P now db adm → P now db' adm)
    (hreset : ∀ t now db adm, t ≤ now → P t db adm →
      P now (Function.update db (fullKey p key) none) [])
    (hcheck : ∀ t now db adm rate, G t db rate → t ≤ now → P t db adm →
      P now (final ((eval p t key rate).run db))
        (adm ++ if (answer ((eval p t key rate).run db)).2.allowed = true then [t] else []))
    (hc : Clocked es) (hu : Uses G p key es) (ha : Apart key es) (hnow : ∀ e ∈ es, e.time ≤ now) :
    P now ((throttle p).exec (throttle p).init es)
      (admitted key ((throttle p).log (throttle p).init es)) := by
  induction es using List.reverseRecOn generalizing now with
  | nil => exact h0 now
  | append_singleton es e ih =>
    have hold : ∀ {u : ℕ}, (∀ a ∈ es, a.time ≤ u) →
        P u ((throttle p).exec (throttle p).init es)
          (admitted key ((throttle p).log (throttle p).init es)) :=
      ih hc.of_append (Along.of_append hu) fun a h => ha a (List.mem_append_left _ h)
    have hes : ∀ a ∈ es, a.time ≤ e.time := fun a h => hc.le_of_split h
    have hlast : e.time ≤ now := hnow e (by simp)
    rw [exec_concat, log_concat]
    by_cases hk : e.ev.key = key
    · obtain ⟨t, op⟩ := e
      cases op with
      | reset k =>
        obtain rfl : k = key := hk
        rw [next_reset, admitted, admissions_reset rfl]
        exact hreset t now _ _ hlast (hold hes)
      | check k rate =>
        obtain rfl : k = key := hk
        rw [next_check, admitted, admissions_check rfl]
        exact hcheck t now _ _ rate (hu.last rate rfl) hlast (hold hes)
    · obtain ⟨h1, h2⟩ := next_other ((throttle p).exec (throttle p).init es) hk (ha e (by simp))
      rw [admitted, admissions_other (by exact hk)]
      exact hother now _ _ _ h1 h2 (hold fun a h => hnow a (List.mem_append_left _ h))

/-! ### Whole runs -/

theorem Tracked.initial (W : ℕ) (K : String) (now : ℕ) :
    Tracked W K now (fun _ => none) [] [] 0 0 :=
  ⟨⟨rfl, .inr ⟨rfl, .inl rfl⟩, List.Pairwise.nil, by simp⟩, by simp, Window.Tracks.refl _ _ _⟩

theorem Tracked.later {W : ℕ} {K : String} {us : ℕ} {db : Db} {adm : List ℕ} {L : List (ℕ × ℕ)}
    {n : ℕ} {Y : ℚ} (h : Tracked W K us db adm L n Y) (ht : us ≤ now) :
    Tracked W K now db adm L n Y :=
  ⟨h.stored, fun e he => (h.le_now e he).trans ht, h.tracks.later ht⟩

/-- The window of a check, in whole seconds. -/
def seconds (rate : Rate) : ℕ := (pyInt rate.perSeconds).toNat

/-- Checks that meet `G` drop nothing from the windows of length `W`, relying on `I` of the members and
their deadline, which they keep. -/
structure Dropless (W : ℕ) (K : String) (G : ℕ → Db → Rate → Prop)
    (I : List (ℕ × ℕ) → ℚ → Prop) : Prop where
  pos : ∀ {us db rate}, G us db rate → 0 < pyInt rate.perSeconds
  seq : ∀ {us db rate}, G us db rate → SeqBelow K us db
  dropsNone : ∀ {us db rate L n Y}, G us db rate → Stored K L n Y db → I L Y →
    DropsNone W K us db (seconds rate)
  nil : ∀ Y, I [] Y
  sublist : ∀ {L L' Y}, I L Y → L'.Sublist L → I L' Y
  fresh : ∀ {us db rate L}, G us db rate → (∀ e ∈ L, e.2 ≤ us) → I L (clock us + seconds rate)

/-- The entries of a key show the windows of length `W` and satisfy `I`. -/
def Reached (W : ℕ) (K : String) (I : List (ℕ × ℕ) → ℚ → Prop) (now : ℕ) (db : Db)
    (adm : List ℕ) : Prop :=
  ∃ L n Y, Tracked W K now db adm L n Y ∧ I L Y

section Run

variable {W : ℕ} {G : ℕ → Db → Rate → Prop} {I : List (ℕ × ℕ) → ℚ → Prop}

theorem Reached.check {us : ℕ} {db : Db} {adm : List ℕ} {rate : Rate}
    (h : Reached W (fullKey p key) I us db adm) (hd : Dropless W (fullKey p key) G I)
    (hg : G us db rate) :
    Reached W (fullKey p key) I us (final ((eval p us key rate).run db))
      (adm ++ if (answer ((eval p us key rate).run db)).2.allowed = true then [us] else []) := by
  obtain ⟨L, n, Y, ht, hI⟩ := h
  have hpos := hd.pos hg
  have hsec : pyInt rate.perSeconds = (seconds rate : ℤ) := by
    unfold seconds
    omega
  obtain ⟨L', n', Y', htr, hL'⟩ :=
    ht.check (hd.dropsNone hg ht.stored hI) (hd.seq hg) (by omega) rate.count
  unfold eval
  rw [hsec]
  refine ⟨L', n', Y', htr, ?_⟩
  rcases hL' with ⟨hsl, rfl⟩ | rfl
  · exact hd.sublist hI hsl
  · exact hd.fresh hg htr.le_now

/-- **Run lemma.**  A run of checks that drop nothing from the windows of length `W` keeps showing
them. -/
theorem reached_run (hd : Dropless W (fullKey p key) G I) (hc : Clocked es) (hu : Uses G p key es)
    (ha : Apart key es) (hnow : ∀ e ∈ es, e.time ≤ now) :
    Reached W (fullKey p key) I now ((throttle p).exec (throttle p).init es)
      (admitted key ((throttle p).log (throttle p).init es)) := by
  refine key_induct (P := Reached W (fullKey p key) I)
    (fun now => ⟨_, _, _, .initial _ _ _, hd.nil 0⟩) ?_ ?_ ?_ hc hu ha hnow
  · rintro now db db' adm h1 h2 ⟨L, n, Y, ht, hI⟩
    exact ⟨L, n, Y, ⟨⟨h1.trans ht.stored.zset, by rw [h2]; exact ht.stored.seq, ht.stored.ordered,
      ht.stored.le⟩, ht.le_now, ht.tracks⟩, hI⟩
  · rintro t now db adm - ⟨L, n, Y, ht, hI⟩
    refine ⟨[], n, Y, ⟨⟨Function.update_self .., ?_, List.Pairwise.nil, by simp⟩, by simp,
      Window.Tracks.refl _ _ _⟩, hd.nil Y⟩
    rw [Function.update_of_ne (seqKey_ne _)]
    rcases ht.stored.seq with hs | ⟨-, hs⟩
    · exact .inr ⟨rfl, .inr ⟨_, hs⟩⟩
    · exact .inr ⟨rfl, hs⟩
  · intro t now db adm rate hg hle h
    obtain ⟨L, n, Y, ht, hI⟩ := h.check hd hg
    exact ⟨L, n, Y, ht.later hle, hI⟩

end Run

end ResilienceKit.RedisAsyncThrottle
