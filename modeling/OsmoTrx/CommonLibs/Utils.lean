import OsmoTrx.Lib.Loop
import OsmoTrx.Lib.CText

/-!
# Lists separated by commas

`comma_delimited_to_vector` of `Utils.cpp`, which reads pieces from a string stream as long as the
flags of the stream say that it is good.

* `extract_spec` — what one `getline` reads.
* `commaDelimitedToVector_eq` — **the pieces** are the string split at its commas.
-/

namespace OsmoTrx
namespace CommonLibs

open CText

/-- `std::stringstream`: what is still to be read, and the flags. -/
structure StringStream where
  rest : List Char
  eofbit : Bool
  failbit : Bool
  deriving DecidableEq, Repr

namespace StringStream

def good (ss : StringStream) : Bool := !ss.eofbit && !ss.failbit

/-- The characters in front of the delimiter and what is behind it, or all characters; whether
the end was reached. -/
def extract (delim : Char) : List Char → List Char × List Char × Bool
  | [] => ([], [], true)
  | c :: rest =>
    if c = delim then ([], rest, false)
    else
      let (str, rest, eof) := extract delim rest
      (c :: str, rest, eof)

/-- `std::getline`.  It fails if the stream is not good or no character could be taken out of it,
the delimiter being one. -/
def getline (ss : StringStream) (delim : Char) : List Char × StringStream :=
  if ss.good then
    let (str, rest, eof) := extract delim ss.rest
    (str, ⟨rest, eof, decide (rest.length = ss.rest.length)⟩)
  else ([], { ss with failbit := true })

/-- **What one `getline` reads.** -/
theorem extract_spec (delim : Char) (rest : List Char) :
    (delim ∉ rest ∧ extract delim rest = (rest, [], true)) ∨
      ∃ str rest', rest = str ++ delim :: rest' ∧ delim ∉ str ∧
        extract delim rest = (str, rest', false) := by
  induction rest with
  | nil => exact .inl ⟨List.not_mem_nil, rfl⟩
  | cons c rest ih =>
    rw [extract]
    by_cases hc : c = delim
    · subst hc
      exact .inr ⟨[], rest, rfl, List.not_mem_nil, if_pos rfl⟩
    · rw [if_neg hc]
      rcases ih with ⟨hnot, h⟩ | ⟨str, rest', hrest, hnot, h⟩
      · rw [h]
        exact .inl ⟨List.not_mem_cons_of_ne_of_not_mem (Ne.symm hc) hnot, rfl⟩
      · rw [h]
        refine .inr ⟨c :: str, rest', by rw [hrest, List.cons_append], ?_, rfl⟩
        exact List.not_mem_cons_of_ne_of_not_mem (Ne.symm hc) hnot

end StringStream

/-! ## The pieces -/

/-- The stream and the pieces so far. -/
structure Splitting where
  ss : StringStream
  result : List (List Char)

/-- `getline(ss, substr, ','); result.push_back(substr)`. -/
def Splitting.turn (s : Splitting) : Option Splitting :=
  let (substr, ss) := s.ss.getline ','
  some ⟨ss, s.result ++ [substr]⟩

/-- `comma_delimited_to_vector`.  The loop never takes more turns than given here. -/
def commaDelimitedToVector (opt : List Char) : Option (List (List Char)) :=
  let str := cstr opt
  (Loop.whileM (fun s => s.ss.good) Splitting.turn (str.length + 1)
    ⟨⟨str, false, false⟩, []⟩).map Splitting.result

namespace Splitting

/-- The pieces so far and those of what is still to be read are all of them. -/
structure Invariant (str : List Char) (s : Splitting) : Prop where
  joined : s.result ++ (if s.ss.good then s.ss.rest.splitOn ',' else []) = str.splitOn ','
  rest : s.ss.rest <:+ str
  pieces : ∀ piece ∈ s.result, ',' ∉ piece ∧ piece <:+: str

/-- How many turns there can be. -/
def turnsLeft (s : Splitting) : ℕ := if s.ss.good then s.ss.rest.length + 1 else 0

/-- One more piece. -/
theorem Invariant.turn {str : List Char} {s : Splitting} (h : Invariant str s)
    (hgood : s.ss.good = true) :
    ∃ s', s.turn = some s' ∧ Invariant str s' ∧ s'.turnsLeft < s.turnsLeft := by
  obtain ⟨hjoined, hrest, hpieces⟩ := h
  rw [if_pos hgood] at hjoined
  rw [Splitting.turn, StringStream.getline, if_pos hgood]
  rcases StringStream.extract_spec ',' s.ss.rest with ⟨hnot, h⟩ | ⟨piece, rest', hsplit, hnot, h⟩
  · rw [h]
    refine ⟨_, rfl, ⟨?_, List.nil_suffix, fun piece hpiece => ?_⟩, ?_⟩
    · rw [List.splitOn_eq_singleton hnot] at hjoined
      simp [StringStream.good, hjoined]
    · rcases List.mem_append.mp hpiece with hpiece | hpiece
      · exact hpieces piece hpiece
      · rw [List.mem_singleton.mp hpiece]
        exact ⟨hnot, hrest.isInfix⟩
    · rw [turnsLeft, turnsLeft, if_pos hgood]
      simp [StringStream.good]
  · rw [h]
    have hlength : rest'.length ≠ s.ss.rest.length := by
      rw [hsplit, List.length_append, List.length_cons]
      omega
    have hsuffix : rest' <:+ s.ss.rest := ⟨piece ++ [','], by rw [hsplit]; simp⟩
    refine ⟨_, rfl, ⟨?_, hsuffix.trans hrest, fun piece' hpiece => ?_⟩, ?_⟩
    · rw [hsplit, List.splitOn_append_cons_self_of_not_mem hnot] at hjoined
      simp [StringStream.good, hlength, hjoined]
    · rcases List.mem_append.mp hpiece with hpiece | hpiece
      · exact hpieces piece' hpiece
      · rw [List.mem_singleton.mp hpiece]
        refine ⟨hnot, List.IsInfix.trans ?_ hrest.isInfix⟩
        exact ⟨[], ',' :: rest', by rw [hsplit, List.nil_append]⟩
    · have hlt := hsuffix.length_le
      simp only [turnsLeft, hgood, if_true]
      split_ifs <;> omega

end Splitting

/-- **The pieces** are the string split at its commas. -/
theorem commaDelimitedToVector_eq (opt : List Char) :
    commaDelimitedToVector opt = some ((cstr opt).splitOn ',') ∧
      ∀ piece ∈ (cstr opt).splitOn ',', ',' ∉ piece ∧ piece <:+: cstr opt := by
  have hinit : Splitting.Invariant (cstr opt) ⟨⟨cstr opt, false, false⟩, []⟩ :=
    ⟨rfl, List.suffix_rfl, fun _ hpiece => absurd hpiece List.not_mem_nil⟩
  have hfuel : Splitting.turnsLeft ⟨⟨cstr opt, false, false⟩, []⟩ ≤ (cstr opt).length + 1 := le_rfl
  obtain ⟨s, hloop, hinv, hend⟩ := Loop.whileM_spec (Splitting.Invariant (cstr opt))
    Splitting.turnsLeft (fun _ h hgood => h.turn hgood) hinit hfuel
  have hresult : s.result = (cstr opt).splitOn ',' := by
    have hjoined := hinv.joined
    rwa [hend, if_neg Bool.false_ne_true, List.append_nil] at hjoined
  refine ⟨?_, hresult ▸ hinv.pieces⟩
  rw [commaDelimitedToVector, hloop, Option.map_some, hresult]

example : commaDelimitedToVector ",a,,b,".toList = some [[], ['a'], [], ['b'], []] := by decide

end CommonLibs
end OsmoTrx
