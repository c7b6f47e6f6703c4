import ResilienceKit.Lib.Redis

/-!
# Redis — strings, counters and lifetimes

`GET`, `SET` with `EX` and `NX`, `INCRBY` and `DECRBY`.  Integers have 64 bits: an argument, a stored number or a
sum that does not fit is an error, and so is a deadline whose milliseconds do not.
-/

namespace Redis

/-- `GET`. -/
def getStr (now : ℚ) (key : String) : Cmd (Option Scalar) := do
  let db ← get
  match visible now db key with
  | none => return none
  | some ⟨.str v, _⟩ => return some v
  | some _ => throw .wrongType

/-- The check of `EX`. -/
def checkEx (now : ℚ) : Option ℤ → Cmd Unit
  | none => pure ()
  | some seconds => if seconds ≤ 0 ∨ ¬ Expirable now seconds then throw .invalidExpire else pure ()

/-- `SET` with the options `EX` and `NX`; says whether it wrote. -/
def setStr (now : ℚ) (key : String) (v : Scalar) (ex : Option ℤ) (nx : Bool) : Cmd Bool := do
  checkEx now ex
  let db ← get
  if nx ∧ (visible now db key).isSome then return false
  else
    assign key (some ⟨.str v, ex.map fun seconds => now + seconds⟩)
    return true

/-- The integer a counter command reads; no key counts as `0`. -/
def readInt (now : ℚ) (key : String) : Cmd ℤ := do
  let db ← get
  match visible now db key with
  | none => return 0
  | some ⟨.str (.num q), _⟩ => if q.den = 1 ∧ Fits q.num then return q.num else throw .notInteger
  | some ⟨.str (.text _), _⟩ => throw .notInteger
  | some _ => throw .wrongType

/-- What `INCRBY` and `DECRBY` do with the change. -/
def addInt (now : ℚ) (key : String) (change : ℤ) : Cmd ℤ := do
  let old ← readInt now key
  if Fits (old + change) then
    put now key (.str (.num (old + change : ℤ)))
    return old + change
  else throw .overflow

/-- `INCRBY`. -/
def incrby (now : ℚ) (key : String) (amount : ℤ) : Cmd ℤ :=
  if Fits amount then addInt now key amount else throw .notInteger

/-- `DECRBY`. -/
def decrby (now : ℚ) (key : String) (amount : ℤ) : Cmd ℤ :=
  if ¬ Fits amount then throw .notInteger
  else if amount = -2 ^ 63 then throw .overflow
  else addInt now key (-amount)

/-! ### Rules -/

variable {now : ℚ} {db : Db} {key k : String}

theorem getStr_none (h : visible now db key = none) : (getStr now key).run db = .ok none db := by
  unfold getStr
  rw [get_bind, h]
  rfl

theorem getStr_some {v : Scalar} {x : Option ℚ} (h : visible now db key = some ⟨.str v, x⟩) :
    (getStr now key).run db = .ok (some v) db := by
  unfold getStr
  rw [get_bind, h]
  rfl

/-- A lifetime that `EX` takes, or none. -/
def ExOk (now : ℚ) (ex : Option ℤ) : Prop := ∀ seconds, ex = some seconds → 0 < seconds ∧ Expirable now seconds

theorem checkEx_ok {ex : Option ℤ} (h : ExOk now ex) : (checkEx now ex).run db = .ok () db := by
  cases ex with
  | none => rfl
  | some seconds =>
    obtain ⟨hpos, hexp⟩ := h seconds rfl
    have hno : ¬ (seconds ≤ 0 ∨ ¬ Expirable now seconds) := by
      rintro (hle | hex)
      · omega
      · exact hex hexp
    simp only [checkEx, if_neg hno]
    rfl

theorem setStr_ok {ex : Option ℤ} (h : ExOk now ex) (v : Scalar) :
    (setStr now key v ex false).run db =
      .ok true (Function.update db key (some ⟨.str v, ex.map fun seconds => now + seconds⟩)) := by
  unfold setStr
  rw [bind_ok (checkEx_ok h), get_bind, if_neg (by simp), bind_ok (assign_run _ _ _)]
  rfl

theorem setStr_nx {ex : Option ℤ} (h : ExOk now ex) (v : Scalar) (hv : visible now db key = none) :
    (setStr now key v ex true).run db =
      .ok true (Function.update db key (some ⟨.str v, ex.map fun seconds => now + seconds⟩)) := by
  unfold setStr
  rw [bind_ok (checkEx_ok h), get_bind, if_neg (by simp [hv]), bind_ok (assign_run _ _ _)]
  rfl

theorem setStr_taken {ex : Option ℤ} (h : ExOk now ex) (v : Scalar) {e : Entry}
    (hv : visible now db key = some e) : (setStr now key v ex true).run db = .ok false db := by
  unfold setStr
  rw [bind_ok (checkEx_ok h), get_bind, if_pos (by simp [hv])]
  rfl

theorem readInt_none (h : visible now db key = none) : (readInt now key).run db = .ok 0 db := by
  unfold readInt
  rw [get_bind, h]
  rfl

theorem readInt_some {n : ℤ} {x : Option ℚ} (hn : Fits n)
    (h : visible now db key = some ⟨.str (.num (n : ℚ)), x⟩) : (readInt now key).run db = .ok n db := by
  unfold readInt
  rw [get_bind, h]
  simp only
  rw [if_pos ⟨Rat.den_intCast n, by rwa [Rat.num_intCast]⟩, Rat.num_intCast]
  rfl

theorem addInt_ok {old change : ℤ} (hr : (readInt now key).run db = .ok old db) (hf : Fits (old + change)) :
    (addInt now key change).run db = .ok (old + change)
      (Function.update db key (some ⟨.str (.num (old + change : ℤ)), deadline now db key⟩)) := by
  unfold addInt
  rw [bind_ok hr, if_pos hf, bind_ok (put_run _ _ _ _)]
  rfl

/-! ### What the commands leave alone -/

theorem Keeps.getStr : Keeps k (getStr now key) := by
  refine .get_bind fun db => ?_
  split
  · exact .pure _
  · exact .pure _
  · exact .throw _

theorem Keeps.checkEx (ex : Option ℤ) : Keeps k (checkEx now ex) := by
  cases ex with
  | none => exact .pure _
  | some seconds =>
    simp only [Redis.checkEx]
    split
    · exact .throw _
    · exact .pure _

theorem Keeps.setStr (h : k ≠ key) (v : Scalar) (ex : Option ℤ) (nx : Bool) :
    Keeps k (setStr now key v ex nx) := by
  refine .bind (.checkEx ex) fun _ => .get_bind fun db => ?_
  split
  · exact .pure _
  · exact .bind (.assign h _) fun _ => .pure _

theorem Keeps.readInt : Keeps k (readInt now key) := by
  refine .get_bind fun db => ?_
  split
  · exact .pure _
  · split
    · exact .pure _
    · exact .throw _
  · exact .throw _
  · exact .throw _

theorem Keeps.addInt (h : k ≠ key) (change : ℤ) : Keeps k (addInt now key change) := by
  refine .bind .readInt fun old => ?_
  split
  · exact .bind (.put h _) fun _ => .pure _
  · exact .throw _

theorem Keeps.incrby (h : k ≠ key) (amount : ℤ) : Keeps k (incrby now key amount) := by
  unfold Redis.incrby
  split
  · exact .addInt h _
  · exact .throw _

theorem Keeps.decrby (h : k ≠ key) (amount : ℤ) : Keeps k (decrby now key amount) := by
  unfold Redis.decrby
  split
  · exact .throw _
  · split
    · exact .throw _
    · exact .addInt h _

end Redis
