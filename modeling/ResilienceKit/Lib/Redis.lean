import Mathlib.Algebra.Order.Ring.Unbundled.Rat
import Mathlib.Data.Rat.Floor
import Mathlib.Logic.Function.Basic
import Mathlib.Tactic.Linarith
import Mathlib.Tactic.SplitIfs

/-!
# Redis — the keyspace and the commands a script runs

A keyspace maps keys to typed entries with an optional deadline.  An entry is there until its
deadline has passed (`live`); a command sees the `visible` entries only, keeps the deadline of the
entry it changes, and fails on an entry of another type.  Every command is told the server clock, and
a failed command keeps the writes made before it, as in a script.

Strings and hash fields that hold a number are kept as the number (`Scalar.num`).
-/

namespace Redis

inductive Scalar
  | text (s : String)
  | num (q : ℚ)
  deriving DecidableEq

/-- The number a script reads, if the text is one. -/
def Scalar.tonumber : Scalar → Option ℚ
  | .text _ => none
  | .num q => some q

inductive Value
  | str (v : Scalar)
  | hash (fields : String → Option Scalar)
  | zset (members : List (String × ℚ))

inductive Error
  | wrongType
  | notInteger
  | overflow
  | invalidExpire
  deriving DecidableEq, Repr

structure Entry where
  val : Value
  expireAt : Option ℚ := none

abbrev Db := String → Option Entry

abbrev Cmd := EStateM Error Db

def live (now : ℚ) (e : Entry) : Bool :=
  match e.expireAt with
  | none => true
  | some d => now ≤ d

def visible (now : ℚ) (db : Db) (key : String) : Option Entry :=
  (db key).filter (live now)

/-! ### Commands -/

/-- The entry under `key`, if any; `none` deletes it. -/
def assign (key : String) (e : Option Entry) : Cmd Unit :=
  modify fun db => Function.update db key e

/-- Write a value under the deadline the key already has. -/
def put (now : ℚ) (key : String) (v : Value) : Cmd Unit := do
  let db ← get
  assign key (some ⟨v, (visible now db key).bind Entry.expireAt⟩)

/-- `DEL`. -/
def del (now : ℚ) (key : String) : Cmd ℕ := do
  let db ← get
  assign key none
  return if (visible now db key).isSome then 1 else 0

/-- A signed integer of 64 bits. -/
def Fits (n : ℤ) : Prop := -2 ^ 63 ≤ n ∧ n < 2 ^ 63

instance (n : ℤ) : Decidable (Fits n) := inferInstanceAs (Decidable (_ ∧ _))

/-- A lifetime that `EXPIRE` takes: it and its deadline fit as milliseconds. -/
def Expirable (now : ℚ) (seconds : ℤ) : Prop :=
  Fits (seconds * 1000) ∧ ⌊now * 1000⌋ + seconds * 1000 < 2 ^ 63

instance (now : ℚ) (seconds : ℤ) : Decidable (Expirable now seconds) := inferInstanceAs (Decidable (_ ∧ _))

/-- What `EXPIRE` does with a lifetime that it takes; one that is not positive deletes the key at once. -/
def setLifetime (now : ℚ) (key : String) (seconds : ℤ) : Cmd ℕ := do
  let db ← get
  match visible now db key with
  | none => return 0
  | some e =>
    assign key (if seconds ≤ 0 then none else some { e with expireAt := some (now + seconds) })
    return 1

/-- `EXPIRE`. -/
def expire (now : ℚ) (key : String) (seconds : ℤ) : Cmd ℕ :=
  if Expirable now seconds then setLifetime now key seconds else throw .invalidExpire

/-- The milliseconds from `now` to the deadline `d`, to the nearest second. -/
def restSeconds (now d : ℚ) : ℤ := (⌊d * 1000⌋ - ⌊now * 1000⌋ + 500) / 1000

/-- `TTL`: `-2` without the key, `-1` without a deadline, else the rest in whole seconds. -/
def ttl (now : ℚ) (key : String) : Cmd ℤ := do
  let db ← get
  match visible now db key with
  | none => return -2
  | some ⟨_, none⟩ => return -1
  | some ⟨_, some d⟩ => return restSeconds now d

/-- `INCR`. -/
def incr (now : ℚ) (key : String) : Cmd ℤ := do
  let db ← get
  match visible now db key with
  | none =>
    put now key (.str (.num 1))
    return 1
  | some ⟨.str (.num q), _⟩ =>
    if q.den = 1 then
      put now key (.str (.num (q + 1)))
      return q.num + 1
    else throw .notInteger
  | some ⟨.str (.text _), _⟩ => throw .notInteger
  | some _ => throw .wrongType

/-- The members of a sorted set; no set is an empty one. -/
def zmembers (now : ℚ) (key : String) : Cmd (List (String × ℚ)) := do
  let db ← get
  match visible now db key with
  | none => return []
  | some ⟨.zset ms, _⟩ => return ms
  | some _ => throw .wrongType

/-- Write a sorted set back; an empty one is no key. -/
def putMembers (now : ℚ) (key : String) (ms : List (String × ℚ)) : Cmd Unit :=
  if ms.isEmpty then assign key none else put now key (.zset ms)

/-- `ZREMRANGEBYSCORE`. -/
def zremrangebyscore (now : ℚ) (key : String) (min max : ℚ) : Cmd ℕ := do
  let ms ← zmembers now key
  let kept := ms.filter fun m => ¬ (min ≤ m.2 ∧ m.2 ≤ max)
  putMembers now key kept
  return ms.length - kept.length

/-- `ZCARD`. -/
def zcard (now : ℚ) (key : String) : Cmd ℕ := do
  let ms ← zmembers now key
  return ms.length

/-- A member gets its new score, or joins the set. -/
def insertMember (score : ℚ) (member : String) (ms : List (String × ℚ)) : List (String × ℚ) :=
  if member ∈ ms.map Prod.fst then ms.map fun m => if m.1 = member then (member, score) else m
  else ms ++ [(member, score)]

/-- `ZADD`. -/
def zadd (now : ℚ) (key : String) (score : ℚ) (member : String) : Cmd ℕ := do
  let ms ← zmembers now key
  putMembers now key (insertMember score member ms)
  return if member ∈ ms.map Prod.fst then 0 else 1

/-- The fields of a hash; no hash is an empty one. -/
def hfields (now : ℚ) (key : String) : Cmd (String → Option Scalar) := do
  let db ← get
  match visible now db key with
  | none => return fun _ => none
  | some ⟨.hash fs, _⟩ => return fs
  | some _ => throw .wrongType

/-- `HMGET`. -/
def hmget (now : ℚ) (key : String) (fields : List String) : Cmd (List (Option Scalar)) := do
  let fs ← hfields now key
  return fields.map fs

def setFields (pairs : List (String × Scalar)) (fs : String → Option Scalar) :
    String → Option Scalar :=
  pairs.foldl (fun fs p => Function.update fs p.1 (some p.2)) fs

/-- `HMSET`. -/
def hmset (now : ℚ) (key : String) (pairs : List (String × Scalar)) : Cmd Unit := do
  let fs ← hfields now key
  put now key (.hash (setFields pairs fs))

/-- `TIME`: seconds and microseconds of the server clock. -/
def time (us : ℕ) : ℕ × ℕ := (us / 1000000, us % 1000000)

/-- The server clock in seconds. -/
def clock (us : ℕ) : ℚ := us / 1000000

/-! ### Rules -/

variable {α β : Type} {now : ℚ} {db db' : Db} {key k : String} {e : Entry}

/-- A command that answered hands its state to the rest of the script. -/
theorem bind_ok {x : Cmd α} {f : α → Cmd β} {a : α} (h : x.run db = .ok a db') :
    (x >>= f).run db = (f a).run db' := by
  rw [EStateM.run_bind, h]

/-- A command that failed ends the script. -/
theorem bind_error {x : Cmd α} {f : α → Cmd β} {err : Error} (h : x.run db = .error err db') :
    (x >>= f).run db = .error err db' := by
  rw [EStateM.run_bind, h]

theorem get_bind {f : Db → Cmd β} : ((get : Cmd Db) >>= f).run db = (f db).run db :=
  bind_ok rfl

theorem live_some {v : Value} {d : ℚ} : live now ⟨v, some d⟩ = true ↔ now ≤ d := by
  simp [live]

theorem visible_eq_some : visible now db key = some e ↔ db key = some e ∧ live now e = true := by
  simp [visible, Option.filter_eq_some_iff]

theorem visible_eq_none : visible now db key = none ↔ ∀ e, db key = some e → live now e = false := by
  simp [visible, Option.filter_eq_none_iff]

theorem visible_none (h : db key = none) : visible now db key = none := by
  simp [visible, h]

/-- An entry that has expired stays away. -/
theorem visible_later {t : ℚ} (h : visible now db key = none) (hle : now ≤ t) : visible t db key = none := by
  rw [visible_eq_none] at h ⊢
  intro e he
  have hdead := h e he
  unfold live at hdead ⊢
  cases hx : e.expireAt with
  | none =>
    rw [hx] at hdead
    cases hdead
  | some d =>
    rw [hx] at hdead
    have hlt : d < now := not_le.mp (of_decide_eq_false hdead)
    exact decide_eq_false (not_le.mpr (hlt.trans_le hle))

theorem visible_update_self (h : live now e = true) :
    visible now (Function.update db key (some e)) key = some e :=
  visible_eq_some.mpr ⟨Function.update_self .., h⟩

theorem clock_mono {a b : ℕ} (h : a ≤ b) : clock a ≤ clock b := by
  have : (a : ℚ) ≤ b := by exact_mod_cast h
  unfold clock
  linarith

theorem clock_nonneg (us : ℕ) : 0 ≤ clock us := by
  unfold clock
  have : (0 : ℚ) ≤ us := Nat.cast_nonneg us
  linarith

/-- The two parts of `TIME` add up to the clock. -/
theorem time_eq_clock (us : ℕ) : ((time us).1 : ℚ) + (time us).2 / 1000000 = clock us := by
  have h : ((1000000 * (us / 1000000) + us % 1000000 : ℕ) : ℚ) = us := by
    rw [Nat.div_add_mod]
  push_cast at h
  unfold time clock
  linarith

theorem clock_floor (us : ℕ) : ⌊clock us * 1000⌋ = (us / 1000 : ℕ) := by
  have h : clock us * 1000 = ((us : ℕ) : ℚ) / ((1000 : ℕ) : ℚ) := by
    unfold clock
    push_cast
    linarith
  rw [h, Rat.floor_natCast_div_natCast]
  rfl

/-- A positive lifetime is taken as long as its deadline fits. -/
theorem expirable_clock {us : ℕ} {seconds : ℤ} (h : 0 ≤ seconds) :
    Expirable (clock us) seconds ↔ ((us / 1000 : ℕ) : ℤ) + seconds * 1000 < 2 ^ 63 := by
  unfold Expirable Fits
  rw [clock_floor]
  omega

/-- A lifetime that is taken twice as far ahead is taken at every time until then. -/
theorem expirable_within {us us' n : ℕ} {seconds : ℤ} (hx : Expirable (clock us) (2 * |seconds| + 2))
    (hle : us' ≤ us + n * 1000000) (hn : (n : ℤ) ≤ |seconds| + 1) : Expirable (clock us') seconds := by
  unfold Expirable Fits at hx ⊢
  rw [clock_floor] at hx ⊢
  have := neg_abs_le seconds
  have := le_abs_self seconds
  omega

theorem clock_add (a n : ℕ) : clock (a + n * 1000000) = clock a + n := by
  unfold clock
  push_cast
  linarith

theorem restSeconds_nonneg {d : ℚ} (h : now ≤ d) : 0 ≤ restSeconds now d := by
  have hfloor : ⌊now * 1000⌋ ≤ ⌊d * 1000⌋ := Int.floor_mono (by linarith)
  unfold restSeconds
  omega

theorem restSeconds_le {d : ℚ} {n : ℤ} (h : d ≤ now + n) : restSeconds now d ≤ n := by
  have hfloor : ⌊d * 1000⌋ ≤ ⌊now * 1000 + (n * 1000 : ℤ)⌋ := by
    refine Int.floor_mono ?_
    push_cast
    linarith
  rw [Int.floor_add_intCast] at hfloor
  unfold restSeconds
  omega

/-- Less than a second is lost to the rounding. -/
theorem lt_restSeconds (now d : ℚ) : d - now < restSeconds now d + 1 := by
  have hrest : ⌊d * 1000⌋ - ⌊now * 1000⌋ + 1 ≤ (restSeconds now d + 1) * 1000 := by
    unfold restSeconds
    omega
  have hrestq : (⌊d * 1000⌋ : ℚ) - ⌊now * 1000⌋ + 1 ≤ (restSeconds now d + 1) * 1000 := by exact_mod_cast hrest
  have := Int.lt_floor_add_one (d * 1000)
  have := Int.floor_le (now * 1000)
  linarith

/-! ### What the commands do to the entries they meet -/

/-- The deadline of a visible entry. -/
def deadline (now : ℚ) (db : Db) (key : String) : Option ℚ := (visible now db key).bind Entry.expireAt

/-- The sorted set a command sees under `key`, unless the type is wrong. -/
def members? (now : ℚ) (db : Db) (key : String) : Option (List (String × ℚ)) :=
  match visible now db key with
  | none => some []
  | some ⟨.zset ms, _⟩ => some ms
  | some _ => none

/-- The counter a command sees under `key`, unless it is no integer. -/
def counter? (now : ℚ) (db : Db) (key : String) : Option ℤ :=
  match visible now db key with
  | none => some 0
  | some ⟨.str (.num q), _⟩ => if q.den = 1 then some q.num else none
  | some _ => none

/-- The hash a command sees under `key`, unless the type is wrong. -/
def fields? (now : ℚ) (db : Db) (key : String) : Option (String → Option Scalar) :=
  match visible now db key with
  | none => some fun _ => none
  | some ⟨.hash fs, _⟩ => some fs
  | some _ => none

/-- The entry of a sorted set with deadline `x`. -/
def zentry (ms : List (String × ℚ)) (x : Option ℚ) : Option Entry :=
  if ms = [] then none else some ⟨.zset ms, x⟩

variable {ms : List (String × ℚ)} {fs : String → Option Scalar}

theorem live_of_visible {v : Value} (h : live now ⟨v, deadline now db key⟩ = false) : False := by
  unfold deadline at h
  cases hv : visible now db key with
  | none => simp [hv, live] at h
  | some e =>
    have hl := (visible_eq_some.mp hv).2
    simp only [hv, Option.bind_some] at h
    unfold live at h hl
    simp only at h
    rw [h] at hl
    cases hl

@[simp] theorem live_deadline (v : Value) : live now ⟨v, deadline now db key⟩ = true := by
  cases h : live now ⟨v, deadline now db key⟩ with
  | true => rfl
  | false => exact (live_of_visible h).elim

theorem members?_congr {db' : Db} (h : db' key = db key) :
    members? now db' key = members? now db key := by
  simp [members?, visible, h]

theorem counter?_congr {db' : Db} (h : db' key = db key) :
    counter? now db' key = counter? now db key := by
  simp [counter?, visible, h]

theorem members?_zentry {x : Option ℚ} (h : live now ⟨.zset ms, x⟩ = true)
    (hk : db key = zentry ms x) : members? now db key = some ms := by
  unfold zentry at hk
  split_ifs at hk with hms
  · simp [members?, visible_none hk, hms]
  · simp [members?, visible_eq_some.mpr ⟨hk, h⟩]

theorem deadline_zentry {x : Option ℚ} (h : live now ⟨.zset ms, x⟩ = true)
    (hk : db key = zentry ms x) (hms : ms ≠ []) : deadline now db key = x := by
  rw [zentry, if_neg hms] at hk
  simp [deadline, visible_eq_some.mpr ⟨hk, h⟩]

theorem assign_run (key : String) (o : Option Entry) (db : Db) :
    (assign key o).run db = .ok () (Function.update db key o) := rfl

theorem put_run (now : ℚ) (key : String) (v : Value) (db : Db) :
    (put now key v).run db =
      .ok () (Function.update db key (some ⟨v, deadline now db key⟩)) := rfl

theorem zmembers_ok (h : members? now db key = some ms) :
    (zmembers now key).run db = .ok ms db := by
  unfold members? at h
  unfold zmembers
  rw [get_bind]
  split at h
  · simp_all
  · simp_all
  · cases h

theorem putMembers_run (now : ℚ) (key : String) (ms : List (String × ℚ)) (db : Db) :
    (putMembers now key ms).run db =
      .ok () (Function.update db key (zentry ms (deadline now db key))) := by
  unfold putMembers zentry
  by_cases h : ms = []
  · simp [h, assign_run]
  · simp [h, put_run]

/-- `ZREMRANGEBYSCORE` keeps the members with a score outside the range, and the deadline. -/
theorem zremrangebyscore_ok {min max : ℚ} (h : members? now db key = some ms) :
    ∃ n, (zremrangebyscore now key min max).run db = .ok n (Function.update db key
      (zentry (ms.filter fun m => ¬ (min ≤ m.2 ∧ m.2 ≤ max)) (deadline now db key))) := by
  unfold zremrangebyscore
  rw [bind_ok (zmembers_ok h), bind_ok (putMembers_run _ _ _ _)]
  exact ⟨_, rfl⟩

theorem zcard_ok (h : members? now db key = some ms) :
    (zcard now key).run db = .ok ms.length db := by
  unfold zcard
  rw [bind_ok (zmembers_ok h)]
  rfl

theorem zadd_ok (score : ℚ) (member : String) (h : members? now db key = some ms) :
    ∃ n, (zadd now key score member).run db = .ok n (Function.update db key
      (zentry (insertMember score member ms) (deadline now db key))) := by
  unfold zadd
  rw [bind_ok (zmembers_ok h), bind_ok (putMembers_run _ _ _ _)]
  exact ⟨_, rfl⟩

theorem incr_ok {n : ℤ} (h : counter? now db key = some n) :
    (incr now key).run db = .ok (n + 1) (Function.update db key
      (some ⟨.str (.num ((n + 1 : ℤ) : ℚ)), deadline now db key⟩)) := by
  unfold counter? at h
  unfold incr
  rw [get_bind]
  split at h
  · rename_i hv
    obtain rfl : (0 : ℤ) = n := by simpa using h
    simp only [hv]
    rw [bind_ok (put_run _ _ _ _)]
    simp
  · rename_i q x hv
    split_ifs at h with hq
    obtain rfl : q.num = n := by simpa using h
    have hqn : (q.num : ℚ) = q := Rat.coe_int_num_of_den_eq_one hq
    simp only [hv, hq, if_true]
    rw [bind_ok (put_run _ _ _ _)]
    simp [hqn]
  · cases h

theorem setLifetime_ok {seconds : ℤ} (h : visible now db key = some e) (hs : 0 < seconds) :
    (setLifetime now key seconds).run db = .ok 1 (Function.update db key
      (some { e with expireAt := some (now + seconds) })) := by
  unfold setLifetime
  rw [get_bind]
  simp only [h]
  rw [if_neg (not_le.mpr hs), bind_ok (assign_run _ _ _)]
  rfl

/-- A deadline that is not in the future deletes the key at once. -/
theorem setLifetime_past {seconds : ℤ} (h : visible now db key = some e) (hs : seconds ≤ 0) :
    (setLifetime now key seconds).run db = .ok 1 (Function.update db key none) := by
  unfold setLifetime
  rw [get_bind]
  simp only [h]
  rw [if_pos hs, bind_ok (assign_run _ _ _)]
  rfl

theorem expire_eq {seconds : ℤ} (h : Expirable now seconds) :
    expire now key seconds = setLifetime now key seconds := if_pos h

theorem expire_ok {seconds : ℤ} (h : visible now db key = some e) (hx : Expirable now seconds)
    (hs : 0 < seconds) : (expire now key seconds).run db = .ok 1 (Function.update db key
      (some { e with expireAt := some (now + seconds) })) := by
  rw [expire_eq hx, setLifetime_ok h hs]

theorem expire_past {seconds : ℤ} (h : visible now db key = some e) (hx : Expirable now seconds)
    (hs : seconds ≤ 0) : (expire now key seconds).run db = .ok 1 (Function.update db key none) := by
  rw [expire_eq hx, setLifetime_past h hs]

/-- A lifetime out of range is an error, whatever the key holds. -/
theorem expire_refused {seconds : ℤ} (h : ¬ Expirable now seconds) :
    (expire now key seconds).run db = .error .invalidExpire db := by
  rw [expire, if_neg h]
  rfl

/-- `TTL` only reads. -/
theorem ttl_ok (now : ℚ) (key : String) (db : Db) : ∃ n, (ttl now key).run db = .ok n db := by
  unfold ttl
  rw [get_bind]
  split <;> exact ⟨_, rfl⟩

theorem ttl_missing (h : visible now db key = none) : (ttl now key).run db = .ok (-2) db := by
  unfold ttl
  rw [get_bind, h]
  rfl

theorem ttl_deadline {v : Value} {d : ℚ} (h : visible now db key = some ⟨v, some d⟩) :
    (ttl now key).run db = .ok (restSeconds now d) db := by
  unfold ttl
  rw [get_bind, h]
  rfl

theorem hfields_ok (h : fields? now db key = some fs) : (hfields now key).run db = .ok fs db := by
  unfold fields? at h
  unfold hfields
  rw [get_bind]
  split at h
  · simp_all
  · simp_all
  · cases h

theorem hmget_ok (names : List String) (h : fields? now db key = some fs) :
    (hmget now key names).run db = .ok (names.map fs) db := by
  unfold hmget
  rw [bind_ok (hfields_ok h)]
  rfl

/-- `HMSET` overrides the fields it names, and keeps the deadline. -/
theorem hmset_ok (pairs : List (String × Scalar)) (h : fields? now db key = some fs) :
    (hmset now key pairs).run db = .ok () (Function.update db key
      (some ⟨.hash (setFields pairs fs), deadline now db key⟩)) := by
  unfold hmset
  rw [bind_ok (hfields_ok h)]
  exact put_run _ _ _ _

theorem del_ok (now : ℚ) (key : String) (db : Db) :
    ∃ n, (del now key).run db = .ok n (Function.update db key none) := by
  unfold del
  rw [get_bind, bind_ok (assign_run _ _ _)]
  exact ⟨_, rfl⟩

theorem insertMember_new {score : ℚ} {member : String} (h : member ∉ ms.map Prod.fst) :
    insertMember score member ms = ms ++ [(member, score)] := if_neg h

theorem length_insertMember {score : ℚ} {member : String} (h : member ∈ ms.map Prod.fst) :
    (insertMember score member ms).length = ms.length := by
  rw [insertMember, if_pos h, List.length_map]

theorem length_insertMember_le (score : ℚ) (member : String) (ms : List (String × ℚ)) :
    (insertMember score member ms).length ≤ ms.length + 1 := by
  by_cases h : member ∈ ms.map Prod.fst
  · rw [length_insertMember h]
    exact Nat.le_succ _
  · rw [insertMember_new h, List.length_append, List.length_singleton]

/-- The set holds the new score and old members. -/
theorem mem_insertMember {score : ℚ} {member : String} {m : String × ℚ}
    (h : m ∈ insertMember score member ms) : m.2 = score ∨ m ∈ ms := by
  unfold insertMember at h
  split_ifs at h
  · obtain ⟨m', hm', rfl⟩ := List.mem_map.mp h
    by_cases he : m'.1 = member
    · rw [if_pos he]
      exact .inl rfl
    · rw [if_neg he]
      exact .inr hm'
  · rcases List.mem_append.mp h with h | h
    · exact .inr h
    · rw [List.mem_singleton.mp h]
      exact .inl rfl

theorem insertMember_score (score : ℚ) (member : String) :
    ∃ m ∈ insertMember score member ms, m.2 = score := by
  unfold insertMember
  split_ifs with h
  · obtain ⟨m', hm', he⟩ := List.mem_map.mp h
    exact ⟨_, List.mem_map_of_mem hm', by rw [if_pos he]⟩
  · exact ⟨(member, score), by simp, rfl⟩

theorem insertMember_ne_nil {score : ℚ} {member : String} : insertMember score member ms ≠ [] := by
  unfold insertMember
  split_ifs with h
  · intro he
    rw [List.map_eq_nil_iff] at he
    simp [he] at h
  · simp

/-! ### What the commands leave alone -/

/-- The keyspace a script leaves behind, whether it answered or failed. -/
def final : EStateM.Result Error Db α → Db
  | .ok _ db => db
  | .error _ db => db

/-- The script leaves the entry under `k` alone. -/
def Keeps (k : String) (x : Cmd α) : Prop := ∀ db, final (x.run db) k = db k

theorem Keeps.pure (a : α) : Keeps k (Pure.pure a : Cmd α) := fun _ => rfl

theorem Keeps.throw (err : Error) : Keeps k (throw err : Cmd α) := fun _ => rfl

theorem Keeps.bind {x : Cmd α} {f : α → Cmd β} (hx : Keeps k x) (hf : ∀ a, Keeps k (f a)) :
    Keeps k (x >>= f) := by
  intro db
  have h := hx db
  rw [EStateM.run_bind]
  cases hr : x.run db with
  | ok a db' =>
    rw [hr] at h
    exact (hf a db').trans h
  | error err db' =>
    rw [hr] at h
    exact h

theorem Keeps.get_bind {f : Db → Cmd β} (hf : ∀ db, Keeps k (f db)) :
    Keeps k ((get : Cmd Db) >>= f) := fun db => hf db db

theorem Keeps.assign (h : k ≠ key) (o : Option Entry) : Keeps k (assign key o) := by
  intro db
  rw [assign_run]
  exact Function.update_of_ne h _ _

theorem Keeps.put (h : k ≠ key) (v : Value) : Keeps k (put now key v) :=
  .get_bind fun _ => .assign h _

theorem Keeps.del (h : k ≠ key) : Keeps k (del now key) :=
  .get_bind fun _ => .bind (.assign h _) fun _ => .pure _

theorem Keeps.setLifetime (h : k ≠ key) (seconds : ℤ) : Keeps k (setLifetime now key seconds) := by
  refine .get_bind fun db => ?_
  split
  · exact .pure _
  · exact .bind (.assign h _) fun _ => .pure _

theorem Keeps.expire (h : k ≠ key) (seconds : ℤ) : Keeps k (expire now key seconds) := by
  unfold Redis.expire
  split
  · exact .setLifetime h _
  · exact .throw _

theorem Keeps.ttl : Keeps k (ttl now key) := by
  refine .get_bind fun db => ?_
  split <;> exact .pure _

theorem Keeps.incr (h : k ≠ key) : Keeps k (incr now key) := by
  refine .get_bind fun db => ?_
  split
  · exact .bind (.put h _) fun _ => .pure _
  · split
    · exact .bind (.put h _) fun _ => .pure _
    · exact .throw _
  · exact .throw _
  · exact .throw _

theorem Keeps.zmembers : Keeps k (zmembers now key) := by
  refine .get_bind fun db => ?_
  split
  · exact .pure _
  · exact .pure _
  · exact .throw _

theorem Keeps.putMembers (h : k ≠ key) (ms : List (String × ℚ)) :
    Keeps k (putMembers now key ms) := by
  unfold Redis.putMembers
  split
  · exact .assign h _
  · exact .put h _

theorem Keeps.zremrangebyscore (h : k ≠ key) (min max : ℚ) :
    Keeps k (zremrangebyscore now key min max) :=
  .bind .zmembers fun _ => .bind (.putMembers h _) fun _ => .pure _

theorem Keeps.zcard : Keeps k (zcard now key) := .bind .zmembers fun _ => .pure _

theorem Keeps.zadd (h : k ≠ key) (score : ℚ) (member : String) :
    Keeps k (zadd now key score member) :=
  .bind .zmembers fun _ => .bind (.putMembers h _) fun _ => .pure _

/-! ### What the commands look at -/

/-- Two results that differ at most outside `S`. -/
def Alike (S : Set String) : EStateM.Result Error Db α → EStateM.Result Error Db α → Prop
  | .ok a db, .ok a' db' => a = a' ∧ S.EqOn db db'
  | .error e db, .error e' db' => e = e' ∧ S.EqOn db db'
  | _, _ => False

/-- The script looks at the keys of `S` only. -/
def Local (S : Set String) (x : Cmd α) : Prop :=
  ∀ ⦃db db'⦄, S.EqOn db db' → Alike S (x.run db) (x.run db')

variable {S : Set String}

theorem visible_congr (h : S.EqOn db db') (hk : key ∈ S) : visible now db key = visible now db' key := by
  unfold visible
  rw [h hk]

theorem Alike.eqOn {r r' : EStateM.Result Error Db α} (h : Alike S r r') : S.EqOn (final r) (final r') := by
  cases r with
  | ok a db =>
    cases r' with
    | ok a' db' => exact h.2
    | error e' db' => exact h.elim
  | error e db =>
    cases r' with
    | ok a' db' => exact h.elim
    | error e' db' => exact h.2

theorem Local.pure (a : α) : Local S (Pure.pure a : Cmd α) := fun _ _ h => ⟨rfl, h⟩

theorem Local.throw (err : Error) : Local S (throw err : Cmd α) := fun _ _ h => ⟨rfl, h⟩

theorem Local.bind {x : Cmd α} {f : α → Cmd β} (hx : Local S x) (hf : ∀ a, Local S (f a)) :
    Local S (x >>= f) := by
  intro db db' h
  have hr := hx h
  rw [EStateM.run_bind, EStateM.run_bind]
  cases hd : x.run db with
  | ok a d =>
    cases hd' : x.run db' with
    | ok a' d' =>
      rw [hd, hd'] at hr
      obtain ⟨rfl, heq⟩ := hr
      exact hf a heq
    | error e' d' =>
      rw [hd, hd'] at hr
      exact hr.elim
  | error e d =>
    cases hd' : x.run db' with
    | ok a' d' =>
      rw [hd, hd'] at hr
      exact hr.elim
    | error e' d' =>
      rw [hd, hd'] at hr
      exact hr

/-- A command that goes on with what it sees of the keys of `S`. -/
theorem Local.get_bind {f : Db → Cmd α} (hr : ∀ ⦃db db'⦄, S.EqOn db db' → f db = f db')
    (hf : ∀ db, Local S (f db)) : Local S ((get : Cmd Db) >>= f) := by
  intro db db' h
  rw [Redis.get_bind, Redis.get_bind, hr h]
  exact hf db' h

theorem Local.assign (key : String) (o : Option Entry) : Local S (assign key o) := by
  intro db db' h
  rw [assign_run, assign_run]
  refine ⟨rfl, fun k hk => ?_⟩
  by_cases hkk : k = key
  · subst hkk
    rw [Function.update_self, Function.update_self]
  · rw [Function.update_of_ne hkk, Function.update_of_ne hkk, h hk]

theorem Local.put (hk : key ∈ S) (v : Value) : Local S (put now key v) := by
  refine .get_bind (fun db db' h => ?_) fun _ => .assign _ _
  rw [visible_congr h hk]

theorem Local.del (hk : key ∈ S) : Local S (del now key) := by
  refine .get_bind (fun db db' h => ?_) fun _ => .bind (.assign _ _) fun _ => .pure _
  rw [visible_congr h hk]

theorem Local.setLifetime (hk : key ∈ S) (seconds : ℤ) : Local S (setLifetime now key seconds) := by
  refine .get_bind (fun db db' h => by rw [visible_congr h hk]) fun db => ?_
  split
  · exact .pure _
  · exact .bind (.assign _ _) fun _ => .pure _

theorem Local.expire (hk : key ∈ S) (seconds : ℤ) : Local S (expire now key seconds) := by
  unfold Redis.expire
  split
  · exact .setLifetime hk _
  · exact .throw _

theorem Local.ttl (hk : key ∈ S) : Local S (ttl now key) := by
  refine .get_bind (fun db db' h => by rw [visible_congr h hk]) fun db => ?_
  split <;> exact .pure _

theorem Local.incr (hk : key ∈ S) : Local S (incr now key) := by
  refine .get_bind (fun db db' h => by rw [visible_congr h hk]) fun db => ?_
  split
  · exact .bind (.put hk _) fun _ => .pure _
  · split
    · exact .bind (.put hk _) fun _ => .pure _
    · exact .throw _
  · exact .throw _
  · exact .throw _

theorem Local.zmembers (hk : key ∈ S) : Local S (zmembers now key) := by
  refine .get_bind (fun db db' h => by rw [visible_congr h hk]) fun db => ?_
  split
  · exact .pure _
  · exact .pure _
  · exact .throw _

theorem Local.putMembers (hk : key ∈ S) (ms : List (String × ℚ)) : Local S (putMembers now key ms) := by
  unfold Redis.putMembers
  split
  · exact .assign _ _
  · exact .put hk _

theorem Local.zremrangebyscore (hk : key ∈ S) (min max : ℚ) :
    Local S (zremrangebyscore now key min max) :=
  .bind (.zmembers hk) fun _ => .bind (.putMembers hk _) fun _ => .pure _

theorem Local.zcard (hk : key ∈ S) : Local S (zcard now key) := .bind (.zmembers hk) fun _ => .pure _

theorem Local.zadd (hk : key ∈ S) (score : ℚ) (member : String) : Local S (zadd now key score member) :=
  .bind (.zmembers hk) fun _ => .bind (.putMembers hk _) fun _ => .pure _

/-! ### Scripts that do not fail -/

/-- Where `I` holds the script answers, and `I` holds again. -/
def Safe (I : Db → Prop) (x : Cmd α) : Prop := ∀ db, I db → ∃ a db', x.run db = .ok a db' ∧ I db'

variable {I : Db → Prop}

theorem Safe.pure (a : α) : Safe I (Pure.pure a : Cmd α) := fun db h => ⟨a, db, rfl, h⟩

theorem Safe.bind {x : Cmd α} {f : α → Cmd β} (hx : Safe I x) (hf : ∀ a, Safe I (f a)) :
    Safe I (x >>= f) := by
  intro db h
  obtain ⟨a, db₁, h₁, hI₁⟩ := hx db h
  obtain ⟨b, db₂, h₂, hI₂⟩ := hf a db₁ hI₁
  exact ⟨b, db₂, (bind_ok h₁).trans h₂, hI₂⟩

theorem Safe.ok {x : Cmd α} (hx : Safe I x) (h : I db) : ∃ a, x.run db = .ok a (final (x.run db)) := by
  obtain ⟨a, db', hrun, -⟩ := hx db h
  rw [hrun]
  exact ⟨a, rfl⟩

theorem Safe.final {x : Cmd α} (hx : Safe I x) (h : I db) : I (final (x.run db)) := by
  obtain ⟨a, db', hrun, hI⟩ := hx db h
  rw [hrun]
  exact hI

end Redis
