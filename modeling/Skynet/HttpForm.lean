import Skynet.LuaText

/-! # Form bodies

A model of `escape` and of the body of `httpc.post`, in `httpc.lua`, and of `url.parse_query` of
`url.lua`.  A form comes back with all its bytes (`parseQuery_post`). -/

namespace Skynet.HttpForm

open List Function LuaText

/-! ### The source -/

/-- A digit of `%02X` -/
def hexDigit (d : ℕ) : UInt8 := if d < 10 then (48 + d).toUInt8 else (55 + d).toUInt8

def escapeByte (b : UInt8) : Bytes :=
  if isAlnum b || b = 95 then [b] else [37, hexDigit (b.toNat / 16), hexDigit (b.toNat % 16)]

/-- `escape` -/
def escape (s : Bytes) : Bytes := s.flatMap escapeByte

/-- `form` with its entries in the order of `pairs` -/
structure Form where
  entries : List (Bytes × Bytes)
  nodup : (entries.map Prod.fst).Nodup

def Form.get (form : Form) (k : Bytes) : Option Bytes := form.entries.lookup k

def item (x : Bytes × Bytes) : Bytes := escape x.1 ++ 61 :: escape x.2

/-- The body that `httpc.post` sends. -/
def post (form : Form) : Bytes := [38].intercalate (form.entries.map item)

/-- `decode_func`, which raises an error when `c` is no byte in hexadecimal. -/
def decodeFunc (c : Bytes) : Option UInt8 :=
  (tonumberBase 16 c).bind fun n => if 0 ≤ n ∧ n < 256 then some n.toNat.toUInt8 else none

/-- `str:gsub("%%(..)", decode_func)` -/
def unescape : Bytes → Option Bytes
  | [] => some []
  | 37 :: a :: b :: s => do
    let c ← decodeFunc [a, b]
    let rest ← unescape s
    pure (c :: rest)
  | b :: s => (b :: ·) <$> unescape s

/-- `decode` -/
def decode (s : Bytes) : Option Bytes := unescape (s.map fun b => if b = 43 then 32 else b)

/-- `q:gmatch "(.-)=([^&]*)&?"` -/
def gmatch (q : Bytes) : List (Bytes × Bytes) :=
  match _h : q.dropWhile (· ≠ 61) with
  | [] => []
  | _ :: s => (q.takeWhile (· ≠ 61), s.takeWhile (· ≠ 38)) :: gmatch ((s.dropWhile (· ≠ 38)).drop 1)
termination_by q.length
decreasing_by
  have h₁ := (q.dropWhile_suffix (· ≠ 61)).length_le
  have h₂ := (s.dropWhile_suffix (· ≠ 38)).length_le
  simp only [_h, length_cons, length_drop] at h₁ ⊢
  omega

/-- `url.parse_query` -/
def parseQuery (q : Bytes) : Option (Bytes → Option Bytes) :=
  (gmatch q).foldlM (fun r x => do
    let k ← decode x.1
    let v ← decode x.2
    pure (update r k (some v))) fun _ => none

/-! ### Escaped text -/

theorem escapeByte_cases (b : UInt8) :
    (∀ c ∈ escapeByte b, c ≠ 61 ∧ c ≠ 38 ∧ c ≠ 43) ∧ (escapeByte b = [b] ∧ b ≠ 37 ∨
      ∃ c d, escapeByte b = [37, c, d] ∧ decodeFunc [c, d] = some b) := by
  have hall : ∀ n < 256, (∀ c ∈ escapeByte (.ofNat n), c ≠ 61 ∧ c ≠ 38 ∧ c ≠ 43) ∧
      (escapeByte (.ofNat n) = [.ofNat n] ∧ UInt8.ofNat n ≠ 37 ∨
        escapeByte (.ofNat n) = [37, hexDigit (n / 16), hexDigit (n % 16)] ∧
          decodeFunc [hexDigit (n / 16), hexDigit (n % 16)] = some (.ofNat n)) := by
    decide +kernel
  have h := hall b.toNat b.toNat_lt
  rw [UInt8.ofNat_toNat] at h
  exact ⟨h.1, h.2.imp_right fun h => ⟨_, _, h⟩⟩

theorem mem_escape {s : Bytes} {c : UInt8} (h : c ∈ escape s) : c ≠ 61 ∧ c ≠ 38 ∧ c ≠ 43 := by
  obtain ⟨b, -, hc⟩ := mem_flatMap.mp h
  exact (escapeByte_cases b).1 c hc

theorem unescape_escape (s : Bytes) : unescape (escape s) = some s := by
  induction s with
  | nil => rfl
  | cons b s ih =>
    rw [escape, flatMap_cons, ← escape]
    rcases (escapeByte_cases b).2 with ⟨hb, hne⟩ | ⟨c, d, hb, hdecode⟩
    · rw [hb, singleton_append, unescape, ih]
      · rfl
      · rintro _ _ _ rfl
        exact absurd rfl hne
    · rw [hb]
      simp [unescape, hdecode, ih]

theorem decode_escape (s : Bytes) : decode (escape s) = some s := by
  have hmap : (escape s).map (fun b => if b = 43 then 32 else b) = escape s :=
    (map_congr_left fun b hb => if_neg (mem_escape hb).2.2).trans (map_id' _)
  rw [decode, hmap, unescape_escape]

/-! ### The pairs of a body -/

/-- The first pair of a body, which ends with it or with `&`. -/
theorem gmatch_item (x : Bytes × Bytes) {t : Bytes} (ht : ∀ b ∈ t.head?, b = 38) :
    gmatch (item x ++ t) = (escape x.1, escape x.2) :: gmatch (t.drop 1) := by
  have hk : ∀ b ∈ escape x.1, decide (b ≠ 61) = true := fun b hb => decide_eq_true (mem_escape hb).1
  have hv : ∀ b ∈ escape x.2, decide (b ≠ 38) = true :=
    fun b hb => decide_eq_true (mem_escape hb).2.1
  have htake : t.takeWhile (· ≠ 38) = [] ∧ t.dropWhile (· ≠ 38) = t := by
    cases t with
    | nil => exact ⟨rfl, rfl⟩
    | cons b t =>
      obtain rfl := ht b rfl
      exact ⟨rfl, rfl⟩
  have hdrop : (item x ++ t).dropWhile (· ≠ 61) = 61 :: (escape x.2 ++ t) := by
    rw [item, append_assoc, dropWhile_append_of_pos hk]
    rfl
  rw [gmatch]
  split
  · simp_all
  case h_2 s hs =>
    obtain rfl := (cons.inj (hdrop.symm.trans hs)).2
    rw [takeWhile_append_of_pos hv, dropWhile_append_of_pos hv, htake.1, htake.2, item, append_assoc,
      takeWhile_append_of_pos hk]
    simp

theorem gmatch_nil : gmatch [] = [] := by
  rw [gmatch]
  rfl

theorem gmatch_intercalate (l : List (Bytes × Bytes)) :
    gmatch ([38].intercalate (l.map item)) = l.map fun x => (escape x.1, escape x.2) := by
  induction l with
  | nil => exact gmatch_nil
  | cons x l ih =>
    cases l with
    | nil => simpa [gmatch_nil] using gmatch_item x (t := []) nofun
    | cons y l =>
      have hx := gmatch_item x (t := 38 :: [38].intercalate ((y :: l).map item)) (by simp)
      rw [drop_one, tail_cons, ih] at hx
      simpa using hx

/-- What a table holds that gets the entries of a form one after the other. -/
theorem foldl_update {l : List (Bytes × Bytes)} (h : (l.map Prod.fst).Nodup)
    (r : Bytes → Option Bytes) (k : Bytes) :
    l.foldl (fun (r : Bytes → Option Bytes) x => update r x.1 (some x.2)) r k =
      (l.lookup k).or (r k) := by
  induction l generalizing r with
  | nil => rfl
  | cons x l ih =>
    obtain ⟨hx, hl⟩ := nodup_cons.mp h
    rw [foldl_cons, ih hl, lookup_cons]
    by_cases hk : k = x.1
    · subst hk
      have hnone : l.lookup x.1 = none :=
        lookup_eq_none_iff.mpr fun y hy => by
          simpa using fun heq : x.1 = y.1 => hx (mem_map.mpr ⟨y, hy, heq.symm⟩)
      simp [hnone]
    · rw [beq_eq_false_iff_ne.mpr hk, update_of_ne hk]

/-- **Forms come back**: `url.parse_query` gives the form that `httpc.post` was called with. -/
theorem parseQuery_post (form : Form) : parseQuery (post form) = some form.get := by
  rw [parseQuery, post, gmatch_intercalate, foldlM_map]
  simp only [decode_escape, Option.bind_eq_bind, Option.bind_some]
  rw [foldlM_pure]
  refine congrArg some (funext fun k => ?_)
  rw [foldl_update form.nodup, Option.or_none, Form.get]

end Skynet.HttpForm
