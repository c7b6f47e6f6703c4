import ResilienceKit.Lib.OrderedDict
import ResilienceKit.Middleware.Layers

/-!
# Middleware.HeadersOnce — how often a security header leaves

The names of defaults, overrides and extras are merged as they are spelled, then lowered, and the headers are
appended to whatever the application has sent.  `set_once_iff` says for which configurations and which headers of
the application each configured name leaves with one value.
-/

namespace ResilienceKit.Middleware

open Program Code

variable {X Y : Type}

/-- `str.encode("latin-1")` works. -/
def latin1 (s : String) : Bool := s.toList.all fun c => c.toNat < 256

/-- The constructor: headers that are not Latin-1 raise. -/
def SecurityHeaders.init (overrides extra : List (String × String)) : Except PyExc Headers :=
  if (securityHeaders overrides extra).all fun x => latin1 x.1 && latin1 x.2 then
    .ok (securityHeaders overrides extra)
  else .error ⟨.unicodeEncodeError, 0⟩

/-- The values of a header, in any letter case. -/
def values (name : String) (headers : Headers) : List String :=
  (headers.filter fun x => lower x.1 = name).map Prod.snd

/-- What the mappings write, in order. -/
def writes (overrides extra : List (String × String)) : List (String × String) := DEFAULTS ++ overrides ++ extra

/-- The value that was written last, in any letter case. -/
def lastWritten (overrides extra : List (String × String)) (name : String) : Option String :=
  (values name (writes overrides extra)).getLast?

/-- Each configured header leaves with one value: one of the application's, or else the last that was
written. -/
def SetOnce (overrides extra : List (String × String)) (app out : Headers) : Prop :=
  ∀ name ∈ (writes overrides extra).map fun x => lower x.1, ∃ v, values name out = [v] ∧
    (v ∈ values name app ∨ values name app = [] ∧ lastWritten overrides extra name = some v)

/-- No two names of the configuration differ in nothing but their case, and the application sets none of
them. -/
def Separate (overrides extra : List (String × String)) (app : Headers) : Prop :=
  (∀ x ∈ writes overrides extra, ∀ y ∈ writes overrides extra, lower x.1 = lower y.1 → x.1 = y.1) ∧
    ∀ x ∈ writes overrides extra, values (lower x.1) app = []

/-! ### Letter case -/

/-- What is lower case already stays, and what is not becomes Latin-1. -/
theorem lowerChar_cases (c : Char) : lowerChar c = c ∨ c.toNat < 0xDF ∨ lowerChar c ∈ ['ÿ', 'ß', 'k', 'å'] := by
  by_cases hlatin : c.toNat < 0xDF
  · exact .inr (.inl hlatin)
  · have hupper : c.isUpper = false := by
      rw [← Bool.not_eq_true]
      intro h
      have hboth : 'A'.val ≤ c.val ∧ c.val ≤ 'Z'.val := of_decide_eq_true h
      have hle : c.toNat ≤ 'Z'.toNat := UInt32.le_iff_toNat_le.mp hboth.2
      have hz : 'Z'.toNat = 90 := rfl
      omega
    have hrange : ¬ ((c.isUpper || (0xC0 ≤ c.toNat && c.toNat ≤ 0xDE && c.toNat ≠ 0xD7)) = true) := by
      simp only [hupper, Bool.false_or, Bool.and_eq_true, decide_eq_true_eq]
      omega
    rw [lowerChar, if_neg hrange]
    split
    · exact .inr (.inr (by simp))
    · exact .inr (.inr (by simp))
    · exact .inr (.inr (by simp))
    · exact .inr (.inr (by simp))
    · exact .inl rfl

theorem lowerChar_lowerChar (c : Char) : lowerChar (lowerChar c) = lowerChar c := by
  rcases lowerChar_cases c with h | h | h
  · rw [h, h]
  · have hall : ∀ n < 0xDF, lowerChar (lowerChar (Char.ofNat n)) = lowerChar (Char.ofNat n) := by decide +kernel
    have hc := hall c.toNat h
    rwa [Char.ofNat_toNat] at hc
  · have hall : (['ÿ', 'ß', 'k', 'å'].all fun d => lowerChar d = d) = true := by decide
    exact of_decide_eq_true (List.all_eq_true.mp hall _ h)

theorem lower_lower (s : String) : lower (lower s) = lower s := by
  rw [lower, lower, String.toList_ofList, List.map_map]
  exact congrArg String.ofList (List.map_congr_left fun c _ => lowerChar_lowerChar c)

/-! ### The merged mapping -/

section Merged

variable {overrides extra : List (String × String)} {app : Headers} {name : String}

/-- `merged` -/
def merged (overrides extra : List (String × String)) : OrderedDict String String :=
  ({} : OrderedDict String String).update (writes overrides extra)

theorem items_update (d : OrderedDict String String) (items : List (String × String)) :
    (d.update items).items = update d.items items := by
  induction items generalizing d with
  | nil => rfl
  | cons x items ih => exact ih (d.set x.1 x.2)

theorem securityHeaders_eq : securityHeaders overrides extra =
    (merged overrides extra).items.map fun x => (lower x.1, x.2) := by
  have hitems : (merged overrides extra).items = update (update DEFAULTS overrides) extra := by
    rw [merged, items_update, writes, update, List.foldl_append, List.foldl_append]
    rfl
  rw [securityHeaders, hitems]

/-- The values that are appended for a name. -/
theorem values_securityHeaders : values name (securityHeaders overrides extra) =
    ((merged overrides extra).items.filter fun x => lower x.1 = name).map Prod.snd := by
  rw [securityHeaders_eq, values, List.filter_map, List.map_map]
  simp only [Function.comp_def, lower_lower]

theorem mem_merged {key : String} :
    key ∈ (merged overrides extra).keys ↔ key ∈ (writes overrides extra).map Prod.fst := by
  rw [merged, OrderedDict.mem_keys_update]
  simp [OrderedDict.keys]

/-- A configured name is appended at least once. -/
theorem exists_appended {x : String × String} (hx : x ∈ writes overrides extra) :
    ∃ v, (x.1, v) ∈ (merged overrides extra).items.filter fun y => lower y.1 = lower x.1 := by
  obtain ⟨y, hy, heq⟩ := List.mem_map.mp (mem_merged.mpr (List.mem_map_of_mem hx))
  have hitem : (x.1, y.2) ∈ (merged overrides extra).items := heq ▸ hy
  exact ⟨y.2, List.mem_filter.mpr ⟨hitem, by simp⟩⟩

/-- Where names differ in more than their case, the one value that was written last is appended. -/
theorem values_of_separate {x : String × String} (hx : x ∈ writes overrides extra)
    (hsep : ∀ y ∈ writes overrides extra, lower x.1 = lower y.1 → x.1 = y.1) :
    ∃ v, values (lower x.1) (securityHeaders overrides extra) = [v] ∧
      lastWritten overrides extra (lower x.1) = some v := by
  have hsame : ∀ y ∈ writes overrides extra, decide (lower y.1 = lower x.1) = decide (y.1 = x.1) := by
    intro y hy
    refine decide_eq_decide.mpr ⟨fun h => (hsep y hy h.symm).symm, fun h => by rw [h]⟩
  have hkey : x.1 ∈ (merged overrides extra).keys := mem_merged.mpr (List.mem_map_of_mem hx)
  obtain ⟨v, hget⟩ := Option.ne_none_iff_exists'.mp fun h => OrderedDict.get_eq_none_iff.mp h hkey
  refine ⟨v, ?_, ?_⟩
  · have hfilter : ((merged overrides extra).items.filter fun y => lower y.1 = lower x.1) =
        (merged overrides extra).items.filter fun y => y.1 = x.1 := by
      refine List.filter_congr fun y hy => ?_
      obtain ⟨w, hw, heq⟩ := List.mem_map.mp (mem_merged.mp (List.mem_map_of_mem hy))
      rw [← heq]
      exact hsame w hw
    rw [values_securityHeaders, hfilter, OrderedDict.filter_of_get hget]
    rfl
  · rw [lastWritten, values, List.filter_congr hsame, List.getLast?_map]
    rw [merged, OrderedDict.get_update, OrderedDict.get_empty, Option.or_none] at hget
    exact hget

theorem values_append (app out : Headers) : values name (app ++ out) = values name app ++ values name out := by
  rw [values, List.filter_append, List.map_append]
  rfl

/-- What leaves is as configured exactly where nothing clashes. -/
theorem setOnce_iff :
    SetOnce overrides extra app (app ++ securityHeaders overrides extra) ↔ Separate overrides extra app := by
  constructor
  · intro h
    -- the value that leaves is the only one that is appended
    have hone : ∀ x ∈ writes overrides extra, values (lower x.1) app = [] ∧
        ((merged overrides extra).items.filter fun y => lower y.1 = lower x.1).length ≤ 1 := by
      intro x hx
      obtain ⟨w, hmem⟩ := exists_appended hx
      obtain ⟨v, hv, -⟩ := h (lower x.1) (List.mem_map_of_mem hx)
      have hlength := congrArg List.length hv
      rw [values_append, values_securityHeaders, List.length_append, List.length_map, List.length_singleton]
        at hlength
      have hpos := List.length_pos_of_mem hmem
      exact ⟨List.eq_nil_of_length_eq_zero (by omega), by omega⟩
    refine ⟨fun x hx y hy hxy => ?_, fun x hx => (hone x hx).1⟩
    obtain ⟨v, hleft⟩ := exists_appended hx
    obtain ⟨w, hright⟩ := exists_appended hy
    rw [← hxy] at hright
    obtain ⟨z, hz⟩ := List.length_eq_one_iff.mp
      (Nat.le_antisymm (hone x hx).2 (List.length_pos_of_mem hleft))
    rw [hz, List.mem_singleton] at hleft hright
    exact (Prod.mk.inj (hleft.trans hright.symm)).1
  · rintro ⟨hsep, happ⟩ name hname
    obtain ⟨x, hx, rfl⟩ := List.mem_map.mp hname
    obtain ⟨v, hv, hlast⟩ := values_of_separate hx (hsep x hx)
    refine ⟨v, ?_, .inr ⟨happ x hx, hlast⟩⟩
    rw [values_append, happ x hx, hv, List.nil_append]

end Merged

/-! ### What leaves the middleware -/

/-- Every start leaves with the headers appended, and as configured exactly where nothing clashes. -/
theorem set_once_iff {overrides extra : List (String × String)} {headers : Headers}
    (hinit : SecurityHeaders.init overrides extra = .ok headers) (app : App X Y) {scope : Scope}
    (hscope : scope.type = "http") {log : AsgiHistory X Y} {r : Except PyExc Unit}
    (hr : Runs (securityHeadersMiddleware headers app scope) log r) :
    ∃ inner, Runs (app scope) inner r ∧
      sent log = (sent inner).map (Message.onStart (· ++ headers)) ∧
      ∀ status hs, .start status hs ∈ sent inner →
        (SetOnce overrides extra hs (hs ++ headers) ↔ Separate overrides extra hs) := by
  rw [securityHeadersMiddleware, if_neg (not_not.mpr hscope)] at hr
  obtain ⟨inner, hruns, hsent⟩ := sent_withHeaders _ hr
  refine ⟨inner, hruns, hsent, fun status hs _ => ?_⟩
  rw [SecurityHeaders.init] at hinit
  split_ifs at hinit
  rw [← Except.ok.inj hinit]
  exact setOnce_iff

/-- An application that says itself who may frame it. -/
def framed : App Unit Unit := fun _ => Reply.send ⟨200, [("x-frame-options", "SAMEORIGIN")], []⟩

/-- The messages of `framed`, with these headers on top. -/
def framedLog (headers : Headers) : AsgiHistory Unit Unit :=
  [⟨.send (.start 200 ([("x-frame-options", "SAMEORIGIN")] ++ headers)), none⟩, ⟨.send (.body [] false), none⟩]

/-- `GET /` -/
def index : Scope := ⟨"http", some "GET", "/", []⟩

theorem set_once_iff_framed : ∃ inner, Runs (framed index) inner (.ok ()) ∧
    sent (framedLog (securityHeaders [] [])) = (sent inner).map (Message.onStart (· ++ securityHeaders [] [])) ∧
    ∀ status hs, .start status hs ∈ sent inner →
      (SetOnce [] [] hs (hs ++ securityHeaders [] []) ↔ Separate [] [] hs) :=
  set_once_iff (if_pos (by decide +kernel)) framed (rfl : index.type = "http") ⟨_, _, rfl, _, _, rfl, rfl, rfl⟩

/-- The application's own header leaves, and the default beside it. -/
theorem frame_options_twice : SecurityHeaders.init [] [] = .ok (securityHeaders [] []) ∧
    Runs (securityHeadersMiddleware (securityHeaders [] []) framed index)
      (framedLog (securityHeaders [] [])) (.ok ()) ∧
    ∃ out, .start 200 out ∈ sent (framedLog (securityHeaders [] [])) ∧
      values "x-frame-options" out = ["SAMEORIGIN", "DENY"] ∧
      ¬ SetOnce [] [] [("x-frame-options", "SAMEORIGIN")] out := by
  have hvalues : values "x-frame-options" ([("x-frame-options", "SAMEORIGIN")] ++ securityHeaders [] []) =
      ["SAMEORIGIN", "DENY"] := by decide +kernel
  have hname : "x-frame-options" ∈ (writes [] []).map fun x => lower x.1 := by decide +kernel
  refine ⟨if_pos (by decide +kernel), ⟨_, _, rfl, _, _, rfl, rfl, rfl⟩, _, List.mem_cons_self, hvalues, fun h => ?_⟩
  obtain ⟨v, hv, -⟩ := h _ hname
  rw [hvalues] at hv
  cases hv

end ResilienceKit.Middleware
