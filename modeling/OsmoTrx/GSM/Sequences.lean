import Mathlib.Tactic

/-!
# Fixed bit sequences

The sequences of `GSMCommon.cpp` that bursts are made of.  A string of `0` and `1` is given by its
length and the number it spells in binary.

* `bitVector` — the constructor of `BitVector` from a string, whose elements keep the bits up to
  their own; the users take the last of them.
* `gTrainingSequence`, `gEdgeTrainingSequence`, `gDummyBurst`, `gRACHBurst`,
  `gRACHSynchSequenceTS0` to `TS2` — the sequences, with their lengths.
-/

namespace OsmoTrx
namespace GSM

/-- `BitVector(const char *valString)`: element `i` is the accumulator after `i + 1` characters. -/
def bitVector (len valString : ℕ) : List UInt8 :=
  (List.range len).map fun i => UInt8.ofNat (valString >>> (len - 1 - i))

@[simp] theorem length_bitVector (len valString : ℕ) : (bitVector len valString).length = len := by
  rw [bitVector, List.length_map, List.length_range]

def gTrainingSequence : List (List UInt8) :=
  [0b00100101110000100010010111, 0b00101101110111100010110111, 0b01000011101110100100001110,
    0b01000111101101000100011110, 0b00011010111001000001101011, 0b01001110101100000100111010,
    0b10100111110110001010011111, 0b11101111000100101110111100].map (bitVector 26)

def gEdgeTrainingSequence : List (List UInt8) :=
  [0b111111001111111001111001001001111111111111001111111111001111111001111001001001,
    0b111111001111001001111001001001111001001001001111111111001111001001111001001001,
    0b111001111111111111001001001111001001001111001111111001111111111111001001001111,
    0b111001111111111001001001001111001001111001111111111001111111111001001001001111,
    0b111111111001001111001111001001001111111001111111111111111001001111001111001001,
    0b111001111111001001001111001111001001111111111111111001111111001001001111001111,
    0b001111001111111001001001001001111001001111111111001111001111111001001001001001,
    0b001001001111001001001001111111111001111111001111001001001111001001001001111111].map
    (bitVector 78)

def gDummyBurst : List UInt8 := bitVector 148 <|
  0b0001111101101110110000010100100111000001001000100000001111100011100010111000101110001010111010 *
    2 ^ 54 + 0b010100011001100111001111010011111000100101111101010000

def gRACHBurst : List UInt8 := bitVector 88
  0b0011101001001011011111111001100110101010001111000110111101111110000111001001010110011000

def gRACHSynchSequenceTS0 : List UInt8 := bitVector 41 0b01001011011111111001100110101010001111000

def gRACHSynchSequenceTS1 : List UInt8 := bitVector 41 0b01010100111110001000011000101111001001101

def gRACHSynchSequenceTS2 : List UInt8 := bitVector 41 0b11101111001001110101011000001101101110111

theorem length_of_mem_gTrainingSequence : ∀ seq ∈ gTrainingSequence, seq.length = 26 := by
  intro seq hseq
  obtain ⟨valString, -, rfl⟩ := List.mem_map.mp hseq
  exact length_bitVector 26 valString

theorem length_of_mem_gEdgeTrainingSequence : ∀ seq ∈ gEdgeTrainingSequence, seq.length = 78 := by
  intro seq hseq
  obtain ⟨valString, -, rfl⟩ := List.mem_map.mp hseq
  exact length_bitVector 78 valString

theorem length_gDummyBurst : gDummyBurst.length = 148 := length_bitVector _ _

theorem length_gRACHBurst : gRACHBurst.length = 88 := length_bitVector _ _

end GSM
end OsmoTrx
