import OsmoTrx.CommonLibs.Utils

/-!
# Choosing a device

`info_list_find` of `LMSDevice.cpp`: the first device whose string has every filter in it.

* `matchAll_spec` — the loop over the filters, when they are fewer than 2³².
* `infoListFind_spec` — **the index** that is found, as the `int` that is returned.
* `device_selection` — **devices by filter**, the filters being the pieces between the commas.
* `matchAll_diverges`, `infoListFind_replicate` — with more filters the inner loop may not end, and
  with more devices an index may be negative.
-/

namespace OsmoTrx
namespace Device
namespace InfoList

open CText CommonLibs

/-! ## The code -/

/-- Whether `strstr` finds a string in another one. -/
def strstr (haystack needle : List Char) : Bool := decide (cstr needle <:+: cstr haystack)

/-- `j` and `match` in the loop over the filters. -/
structure MatchLoop where
  j : ℕ
  matched : Bool

def matchTurn (filters : List (List Char)) (info : List Char) (s : MatchLoop) :
    Option MatchLoop := do
  let filter ← filters[s.j]?
  if strstr info filter then some { s with j := (s.j + 1) % 2 ^ 32 }
  else some { s with matched := false }

/-- The loop over the filters, which a `break` leaves when one does not match. -/
def matchAll (fuel : ℕ) (filters : List (List Char)) (info : List Char) : Option Bool :=
  (Loop.whileM (fun s => s.matched && decide (s.j < filters.length)) (matchTurn filters info) fuel
    ⟨0, true⟩).map MatchLoop.matched

/-- The loop over the devices, with some turns to go. -/
def findLoop (fuel : ℕ) (filters infoList : List (List Char)) : ℕ → ℕ → Option ℤ
  | 0, _ => some (-1)
  | turns + 1, i => do
    let info ← infoList[i]?
    let matched ← matchAll fuel filters info
    if matched then some (i32 i) else findLoop fuel filters infoList turns (i + 1)

/-- `info_list_find`, with `fuel` turns at most for the filters of a device. -/
def infoListFind (fuel : ℕ) (infoList : List (List Char)) (count : ℕ) (args : List Char) :
    Option ℤ := do
  let filters ← commaDelimitedToVector args
  findLoop fuel filters infoList count 0

/-! ## The filters -/

variable {filters infoList : List (List Char)} {info args : List Char} {fuel : ℕ}

/-- All filters match. -/
def Matches (filters : List (List Char)) (info : List Char) : Prop :=
  ∀ filter ∈ filters, strstr info filter = true

instance (filters : List (List Char)) (info : List Char) : Decidable (Matches filters info) :=
  inferInstanceAs (Decidable (∀ filter ∈ filters, strstr info filter = true))

/-- The filters in front of `j` match, and one does not if the loop has been left. -/
structure MatchLoop.Invariant (filters : List (List Char)) (info : List Char) (s : MatchLoop) :
    Prop where
  j_le : s.j ≤ filters.length
  before : ∀ filter ∈ filters.take s.j, strstr info filter = true
  left : s.matched = false → ¬ Matches filters info

/-- How many turns there can be. -/
def MatchLoop.turnsLeft (filters : List (List Char)) (s : MatchLoop) : ℕ :=
  if s.matched then filters.length - s.j else 0

theorem MatchLoop.Invariant.turn {s : MatchLoop} (h : s.Invariant filters info)
    (hlength : filters.length < 2 ^ 32)
    (hcond : (s.matched && decide (s.j < filters.length)) = true) :
    ∃ s', matchTurn filters info s = some s' ∧ s'.Invariant filters info ∧
      s'.turnsLeft filters < s.turnsLeft filters := by
  obtain ⟨hmatched, hj⟩ := Bool.and_eq_true_iff.mp hcond
  rw [decide_eq_true_eq] at hj
  rw [matchTurn, List.getElem?_eq_getElem hj, turnsLeft, if_pos hmatched]
  simp only [Option.bind_eq_bind, Option.bind_some]
  by_cases hstr : strstr info filters[s.j] = true
  · rw [if_pos hstr, Nat.mod_eq_of_lt (show s.j + 1 < 2 ^ 32 by omega)]
    refine ⟨_, rfl, ⟨hj, fun filter hfilter => ?_, h.left⟩, ?_⟩
    · rw [List.take_succ_eq_append_getElem hj, List.mem_append] at hfilter
      rcases hfilter with hfilter | hfilter
      · exact h.before filter hfilter
      · rw [List.mem_singleton.mp hfilter]
        exact hstr
    · simp only [turnsLeft, hmatched, if_true]
      omega
  · rw [if_neg hstr]
    refine ⟨_, rfl, ⟨h.j_le, h.before, fun _ hall => hstr (hall _ (List.getElem_mem hj))⟩, ?_⟩
    simp only [turnsLeft, Bool.false_eq_true, if_false]
    omega

/-- **The loop over the filters** finds out whether all match. -/
theorem matchAll_spec (hlength : filters.length < 2 ^ 32) (hfuel : filters.length ≤ fuel)
    (info : List Char) : matchAll fuel filters info = some (decide (Matches filters info)) := by
  have hinit : MatchLoop.Invariant filters info ⟨0, true⟩ :=
    ⟨Nat.zero_le _, fun _ hfilter => absurd hfilter List.not_mem_nil, fun h => absurd h (by simp)⟩
  obtain ⟨s, hloop, hinv, hend⟩ := Loop.whileM_spec (MatchLoop.Invariant filters info)
    (MatchLoop.turnsLeft filters) (fun s h hcond => h.turn hlength hcond) hinit
    (show MatchLoop.turnsLeft filters ⟨0, true⟩ ≤ fuel from hfuel)
  rw [matchAll, hloop, Option.map_some]
  cases hmatched : s.matched with
  | false => rw [decide_eq_false (hinv.left hmatched)]
  | true =>
    have hj : ¬ s.j < filters.length := by simpa [hmatched] using hend
    have hall : Matches filters info := fun filter hfilter =>
      hinv.before filter (by rwa [List.take_of_length_le (by omega)])
    rw [decide_eq_true hall]

/-! ## The devices -/

/-- Device `i` is the first one that matches. -/
def First (filters infoList : List (List Char)) (i : ℕ) : Prop :=
  ∃ h : i < infoList.length, Matches filters infoList[i] ∧
    ∀ j (hj : j < i), ¬ Matches filters infoList[j]

/-- **The loop over the devices** returns the first one that matches. -/
theorem findLoop_spec
    (hmatch : ∀ info, matchAll fuel filters info = some (decide (Matches filters info)))
    (turns : ℕ) : ∀ i, i + turns = infoList.length →
      (∀ j (hj : j < infoList.length), j < i → ¬ Matches filters infoList[j]) →
      (∃ k, First filters infoList k ∧ findLoop fuel filters infoList turns i = some (i32 k)) ∨
        (∀ info ∈ infoList, ¬ Matches filters info) ∧
          findLoop fuel filters infoList turns i = some (-1) := by
  induction turns with
  | zero =>
    intro i hi hbefore
    refine .inr ⟨fun info hinfo => ?_, rfl⟩
    obtain ⟨j, hj, rfl⟩ := List.mem_iff_getElem.mp hinfo
    exact hbefore j hj (by omega)
  | succ turns ih =>
    intro i hi hbefore
    have hlt : i < infoList.length := by omega
    rw [findLoop, List.getElem?_eq_getElem hlt]
    simp only [Option.bind_eq_bind, Option.bind_some, hmatch]
    by_cases hmatches : Matches filters infoList[i]
    · rw [if_pos (decide_eq_true hmatches)]
      exact .inl ⟨i, ⟨hlt, hmatches, fun j hj => hbefore j (hj.trans hlt) hj⟩, rfl⟩
    · rw [if_neg (by rwa [decide_eq_true_eq])]
      refine ih (i + 1) (by omega) fun j hj hji => ?_
      by_cases hj' : j = i
      · exact hj' ▸ hmatches
      · exact hbefore j hj (by omega)

/-- **The index that is found.** -/
theorem infoListFind_spec (hlength : ((cstr args).splitOn ',').length < 2 ^ 32)
    (hfuel : ((cstr args).splitOn ',').length ≤ fuel) (infoList : List (List Char)) :
    (∃ i, First ((cstr args).splitOn ',') infoList i ∧
        infoListFind fuel infoList infoList.length args = some (i32 i)) ∨
      (∀ info ∈ infoList, ¬ Matches ((cstr args).splitOn ',') info) ∧
        infoListFind fuel infoList infoList.length args = some (-1) := by
  rw [infoListFind, (commaDelimitedToVector_eq args).1]
  exact findLoop_spec (matchAll_spec hlength hfuel) infoList.length 0 (Nat.zero_add _)
    fun j _ hj => absurd hj (Nat.not_lt_zero j)

/-- The string has every piece in it. -/
def Contains (pieces : List (List Char)) (str : List Char) : Prop :=
  ∀ piece ∈ pieces, piece <:+: str

/-- There is no NUL in a piece, so that `c_str()` gives all of it. -/
theorem matches_iff (args info : List Char) : Matches ((cstr args).splitOn ',') info ↔
    Contains ((cstr args).splitOn ',') (cstr info) := by
  refine forall₂_congr fun piece hpiece => ?_
  have hpart := ((commaDelimitedToVector_eq args).2 piece hpiece).2
  have hpiece' : cstr piece = piece := cstr_eq_self fun c hc => mem_cstr (hpart.mem hc)
  rw [strstr, hpiece', decide_eq_true_eq]

/-- **Devices by filter.**  The filters are the text between the commas, and with fewer than 2³² of
them the first one of up to 2³¹ devices that has all of them is found; `-1` says that there is
none. -/
theorem device_selection (args : List Char) :
    ∃ pieces, commaDelimitedToVector args = some pieces ∧ pieces ≠ [] ∧
      [','].intercalate pieces = cstr args ∧ (∀ piece ∈ pieces, ',' ∉ piece) ∧
      ∀ (infoList : List (List Char)) (fuel : ℕ), infoList.length ≤ 2 ^ 31 →
        pieces.length < 2 ^ 32 → pieces.length ≤ fuel →
        ∃ r, infoListFind fuel infoList infoList.length args = some r ∧
          ((∃ (i : ℕ) (h : i < infoList.length), r = i ∧ Contains pieces (cstr infoList[i]) ∧
              ∀ j (hj : j < i), ¬ Contains pieces (cstr infoList[j])) ∨
            r = -1 ∧ ∀ info ∈ infoList, ¬ Contains pieces (cstr info)) ∧
          (r = -1 ↔ ∀ info ∈ infoList, ¬ Contains pieces (cstr info)) ∧
          (cstr args = [] → infoList ≠ [] → r = 0) := by
  obtain ⟨hsplit, hpieces⟩ := commaDelimitedToVector_eq args
  refine ⟨_, hsplit, List.splitOn_ne_nil _ _, List.intercalate_splitOn _,
    fun piece hpiece => (hpieces piece hpiece).1, fun infoList fuel hcount hlength hfuel => ?_⟩
  -- an empty string has one piece, which every device has
  have hempty : cstr args = [] → ∀ info, Contains ((cstr args).splitOn ',') info := by
    intro hargs info piece hpiece
    rw [hargs, List.splitOn_nil, List.mem_singleton] at hpiece
    rw [hpiece]
    exact List.nil_infix
  rcases infoListFind_spec hlength hfuel infoList with ⟨i, ⟨hi, hmatch, hfirst⟩, hr⟩ | ⟨hnone, hr⟩
  · rw [i32_eq_self (by omega) (by omega)] at hr
    simp only [matches_iff] at hmatch hfirst
    refine ⟨i, hr, .inl ⟨i, hi, rfl, hmatch, hfirst⟩, ⟨fun h => ?_, fun h => ?_⟩, fun hargs _ => ?_⟩
    · omega
    · exact absurd hmatch (h _ (List.getElem_mem hi))
    · by_contra hne
      exact hfirst 0 (by omega) (hempty hargs _)
  · simp only [matches_iff] at hnone
    refine ⟨-1, hr, .inr ⟨rfl, hnone⟩, ⟨fun _ => hnone, fun _ => rfl⟩, fun hargs hne => ?_⟩
    obtain ⟨info, rest, rfl⟩ := List.exists_cons_of_ne_nil hne
    exact absurd (hempty hargs _) (hnone info (List.mem_cons_self ..))

/-- The second of two devices, by two filters. -/
example : infoListFind 2 ["addr=1,serial=1".toList, "addr=1,serial=2".toList] 2
    "serial=2,addr".toList = some 1 := by decide

/-! ## More filters, more devices -/

/-- **With 2³² filters** that match the loop over them does not end. -/
theorem matchAll_diverges (hlength : filters.length = 2 ^ 32) (hmatches : Matches filters info)
    (fuel : ℕ) : matchAll fuel filters info = none := by
  rw [matchAll,
    Loop.whileM_diverges (fun s => s.matched = true ∧ s.j < 2 ^ 32) _ _ ⟨rfl, by decide⟩]
  · rfl
  · rintro s ⟨hmatched, hj⟩
    rw [hmatched, Bool.true_and, decide_eq_true_eq, hlength]
    exact hj
  · rintro s s' ⟨hmatched, hj⟩ hturn
    have hj' : s.j < filters.length := hlength ▸ hj
    rw [matchTurn, List.getElem?_eq_getElem hj', Option.bind_eq_bind, Option.bind_some,
      if_pos (hmatches _ (List.getElem_mem hj'))] at hturn
    rw [← Option.some.inj hturn]
    exact ⟨hmatched, Nat.mod_lt _ (by decide)⟩

theorem splitOn_replicate (n : ℕ) :
    (List.replicate n ',').splitOn ',' = List.replicate (n + 1) [] := by
  induction n with
  | zero => rw [List.replicate_zero, List.splitOn_nil, List.replicate_one]
  | succ n ih =>
    have hcons := List.splitOn_append_cons_self_of_not_mem
      (show ',' ∉ ([] : List Char) from List.not_mem_nil) (List.replicate n ',')
    rw [List.replicate_succ, ← List.nil_append (',' :: _), hcons, ih, ← List.replicate_succ]

/-- As many commas as make 2³² pieces select nothing. -/
theorem infoListFind_commas {n : ℕ} (hn : n + 1 = 2 ^ 32) (fuel : ℕ) :
    infoListFind fuel [[]] 1 (List.replicate n ',') = none := by
  have hcstr : cstr (List.replicate n ',') = List.replicate n ',' :=
    cstr_eq_self fun c hc => by rw [List.eq_of_mem_replicate hc]; decide
  have hmatches : Matches (List.replicate (n + 1) []) [] := by
    intro filter hfilter
    rw [List.eq_of_mem_replicate hfilter]
    decide
  rw [infoListFind, (commaDelimitedToVector_eq _).1, hcstr, splitOn_replicate, Option.bind_eq_bind,
    Option.bind_some, findLoop, List.getElem?_cons_zero, Option.bind_eq_bind, Option.bind_some,
    matchAll_diverges (List.length_replicate.trans hn) hmatches]
  rfl

/-- A device behind `n` others is the first one if they do not match. -/
theorem first_replicate {filters : List (List Char)} {other info : List Char} (n : ℕ)
    (hother : ¬ Matches filters other) (hinfo : Matches filters info) (i : ℕ) :
    First filters (List.replicate n other ++ [info]) i ↔ i = n := by
  have hlength : (List.replicate n other ++ [info]).length = n + 1 := by
    rw [List.length_append, List.length_replicate, List.length_singleton]
  have hothers : ∀ j (_ : j < (List.replicate n other ++ [info]).length), j < n →
      (List.replicate n other ++ [info])[j] = other := by
    intro j _ hj
    rw [List.getElem_append_left (by rwa [List.length_replicate]), List.getElem_replicate]
  have hlast : ∀ _ : n < (List.replicate n other ++ [info]).length,
      (List.replicate n other ++ [info])[n] = info := by
    intro _
    rw [List.getElem_append_right (by rw [List.length_replicate])]
    simp
  constructor
  · rintro ⟨hi, hmatch, hbefore⟩
    by_contra hne
    rcases lt_or_gt_of_ne hne with hlt | hlt
    · exact hother (hothers i hi hlt ▸ hmatch)
    · exact hbefore n hlt ((hlast (hlt.trans hi)).symm ▸ hinfo)
  · rintro rfl
    have hi : i < (List.replicate i other ++ [info]).length := by omega
    exact ⟨hi, (hlast hi).symm ▸ hinfo, fun j hj => (hothers j (hj.trans hi) hj).symm ▸ hother⟩

theorem infoListFind_replicate {other info : List Char} {n fuel : ℕ}
    (hlength : ((cstr args).splitOn ',').length < 2 ^ 32)
    (hfuel : ((cstr args).splitOn ',').length ≤ fuel)
    (hother : ¬ Matches ((cstr args).splitOn ',') other)
    (hinfo : Matches ((cstr args).splitOn ',') info) :
    infoListFind fuel (List.replicate n other ++ [info]) (n + 1) args = some (i32 n) := by
  have hspec := infoListFind_spec hlength hfuel (List.replicate n other ++ [info])
  rw [List.length_append, List.length_replicate, List.length_singleton] at hspec
  rcases hspec with ⟨i, hfirst, hr⟩ | ⟨hnone, -⟩
  · rw [hr, (first_replicate n hother hinfo i).mp hfirst]
  · exact absurd hinfo (hnone info (by simp))

/-- 2³² - 1 commas select no device, and one that comes after 2³¹ others has a negative index. -/
theorem device_lost :
    (∀ fuel, infoListFind fuel [[]] 1 (List.replicate (2 ^ 32 - 1) ',') = none) ∧
      First [['a']] (List.replicate (2 ^ 31) [] ++ [['a']]) (2 ^ 31) ∧
      infoListFind 1 (List.replicate (2 ^ 31) [] ++ [['a']]) (2 ^ 31 + 1) ['a'] =
        some (-2 ^ 31) := by
  have hsplit : (cstr ['a']).splitOn ',' = [['a']] := List.splitOn_eq_singleton (by decide)
  have hother : ¬ Matches [['a']] [] := by decide
  have hinfo : Matches [['a']] ['a'] := by decide
  refine ⟨infoListFind_commas (by norm_num), (first_replicate _ hother hinfo _).mpr rfl, ?_⟩
  rw [← hsplit] at hother hinfo
  rw [infoListFind_replicate (by rw [hsplit]; decide) (by rw [hsplit]; decide) hother hinfo]
  decide

end InfoList
end Device
end OsmoTrx
