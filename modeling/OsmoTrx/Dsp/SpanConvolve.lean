import OsmoTrx.Dsp.SignalVector

/-!
# Convolution of vectors, span by span

`convolve` of `sigProcLib.cpp` wraps four kernels that refuse some lengths but trust the samples
in front of the pointer they get.  Each span type derives its own padding for them, in `size_t`;
the kernels get `int`s.

* `tap`, `extended` — the filter, and the input as it goes on at both ends.
* `kernel_eq` — **whichever kernel is taken**, it computes one sum of products per sample.
* `Span.Reads`, `Span.reads_within` — the samples that an output is computed from; the padding
  that a span derives holds them all.
* `sample_padded` — what the padded input holds there.
* `convolve_spans` — **the wrapper computes the convolution in bounds**, and when it is NULL, for
  sizes that an `int` holds; `convolve_wrapped` — a start and a length that it does not.
-/

namespace OsmoTrx
namespace Dsp

variable {R : Type*} [CommRing R]

/-! ## Taps and samples -/

/-- Tap `k` of a filter; a real filter has the first cell of each pair only. -/
def tapOf (real : Bool) (h : ℤ → R) (k : ℤ) : R × R :=
  if real then (h (2 * k), 0) else Loop.loadPair h (2 * k)

namespace SignalVector

/-- Tap `k` of a filter. -/
def tap (h : SignalVector R) (k : ℤ) : R × R := tapOf h.real h.data k

/-- The input as a convolution takes it: zeros on both sides, but for the head room of a vector
that is to start with its filter, if that has room for all taps but one. -/
def extended (x h : SignalVector R) (spanType : ConvType) (t : ℤ) : R × R :=
  if 0 ≤ t ∧ t < x.size then x.sample t
  else if spanType = .START_ONLY ∧ h.size - 1 ≤ x.start ∧ -(x.start : ℤ) ≤ t ∧ t < 0 then x.sample t
  else 0

end SignalVector

/-- The input after padding, as the kernel gets it. -/
def Span.padded (span : Span) (x : SignalVector R) : SignalVector R :=
  if span.append then x.withRoom span.head span.tail else x

/-- Output `i` is computed from sample `t` of the padded input: `x[i - (h_len - 1) + start + k]`,
one tap after the other in a plain loop, four with each pair of loads in a vector kernel. -/
def Span.Reads (span : Span) (taps i : ℕ) (t : ℤ) : Prop :=
  ∃ k < taps, t = i - (taps - 1) + i32 span.start + k

/-! ## The kernels -/

/-- A filter of complex numbers over a window. -/
theorem dotComplex_window (x h : ℤ → R) (hLen start : ℤ) (i n : ℕ) :
    dotComplex (window x hLen start i) h n =
      ∑ k ∈ Finset.range n,
        cmul (Loop.loadPair x (2 * (i - (hLen - 1) + start + k))) (tapOf false h k) := by
  refine Prod.ext ?_ ?_
  · simp only [dotComplex, Prod.fst_sum, cmul, tapOf, Loop.loadPair, window, ptr]
    refine Finset.sum_congr rfl fun k _ => ?_
    simp only [Bool.false_eq_true, if_false, mul_add, add_assoc]
  · simp only [dotComplex, Prod.snd_sum, cmul, tapOf, Loop.loadPair, window, ptr]
    refine Finset.sum_congr rfl fun k _ => ?_
    simp only [Bool.false_eq_true, if_false, mul_add, add_assoc]

/-- A filter of real numbers is one of complex numbers whose imaginary parts are zero. -/
theorem dotReal_window (x h : ℤ → R) (hLen start : ℤ) (i n : ℕ) :
    dotReal (window x hLen start i) h n =
      ∑ k ∈ Finset.range n,
        cmul (Loop.loadPair x (2 * (i - (hLen - 1) + start + k))) (tapOf true h k) := by
  refine Prod.ext ?_ ?_
  · simp only [dotReal, Prod.fst_sum, cmul, tapOf, Loop.loadPair, window, ptr]
    refine Finset.sum_congr rfl fun k _ => ?_
    simp only [if_true, mul_add, mul_zero, sub_zero]
  · simp only [dotReal, Prod.snd_sum, cmul, tapOf, Loop.loadPair, window, ptr]
    refine Finset.sum_congr rfl fun k _ => ?_
    simp only [if_true, mul_add, mul_zero, zero_add, add_assoc]

/-- **Whichever of the four kernels is taken**, with or without vector instructions: a call within
bounds fills the output with the sums over the windows, another one leaves it. -/
theorem kernel_eq (sse3 real aligned : Bool) (x : ℤ → R) (xLen : ℤ) (h : ℤ → R) (hLen : ℤ)
    (y : ℤ → R) (yLen start len : ℤ) :
    kernel (convolveInit sse3) real aligned x xLen h hLen y yLen start len =
      if boundsCheck xLen hLen yLen start len < 0 then (-1, y)
      else (len, Loop.pairs len.toNat (fun i => ∑ k ∈ Finset.range hLen.toNat,
        cmul (Loop.loadPair x (2 * (i - (hLen - 1) + start + k))) (tapOf real h k)) y) := by
  have hreal : realConvolution x xLen h hLen y yLen start len =
      if boundsCheck xLen hLen yLen start len < 0 then (-1, y)
      else (len, Loop.pairs len.toNat (fun i => ∑ k ∈ Finset.range hLen.toNat,
        cmul (Loop.loadPair x (2 * (i - (hLen - 1) + start + k))) (tapOf true h k)) y) := by
    simp only [realConvolution, dotReal_window]
  have hcomplex : complexConvolution x xLen h hLen y yLen start len =
      if boundsCheck xLen hLen yLen start len < 0 then (-1, y)
      else (len, Loop.pairs len.toNat (fun i => ∑ k ∈ Finset.range hLen.toNat,
        cmul (Loop.loadPair x (2 * (i - (hLen - 1) + start + k))) (tapOf false h k)) y) := by
    simp only [complexConvolution, dotComplex_window]
  cases real <;> cases aligned
  · rw [kernel, baseConvolveComplex_eq, hcomplex]
  · rw [kernel, convolveComplex_eq, hcomplex]
  · rw [kernel, baseConvolveReal_eq, hreal]
  · rw [kernel, convolveReal_eq, hreal]

/-! ## The padding -/

section Padding

variable {x h : SignalVector R} {y : Option (SignalVector R)} {start len : ℕ} {spanType : ConvType}
  {span : Span}

omit [CommRing R] in
/-- Every span type but `UNDEFINED` has a span. -/
theorem Span.exists_of (x h : SignalVector R) (start len : ℕ) (htype : spanType ≠ .UNDEFINED) :
    ∃ span, Span.of x h start len spanType = some span := by
  cases spanType with
  | START_ONLY => exact ⟨_, rfl⟩
  | NO_DELAY => exact ⟨_, rfl⟩
  | CUSTOM => exact ⟨_, rfl⟩
  | UNDEFINED => exact absurd rfl htype

theorem Span.padded_size (span : Span) (x : SignalVector R) :
    (span.padded x).size = if span.append then x.size + span.tail else x.size := by
  unfold Span.padded
  split_ifs <;> rfl

theorem Span.padded_start (span : Span) (x : SignalVector R) :
    (span.padded x).start = if span.append then span.head else x.start := by
  unfold Span.padded
  split_ifs <;> rfl

omit [CommRing R] in
/-- The span where nothing wraps. -/
theorem Span.of_custom (hfits : FitsInt x h y .CUSTOM start len)
    (hspan : Span.of x h start len .CUSTOM = some span) :
    span = ⟨if start < h.size - 1 then h.size - start else 0,
      if start + len > x.size then start + len - x.size else 0, start, len,
      start < h.size - 1 || start + len > x.size⟩ := by
  rw [Span.of, hfits.custom] at hspan
  exact (Option.some.inj hspan).symm

/-- The padded input reaches as far as the output. -/
theorem Span.start_add_len_le (hfits : FitsInt x h y spanType start len)
    (hspan : Span.of x h start len spanType = some span) :
    span.start + span.len ≤ (span.padded x).size := by
  rw [Span.padded_size]
  cases spanType with
  | START_ONLY =>
    obtain rfl := Option.some.inj hspan
    simp only [Nat.add_zero, Nat.zero_add, ite_self, le_refl]
  | NO_DELAY =>
    obtain rfl := Option.some.inj hspan
    simp only [if_true]
    omega
  | CUSTOM =>
    obtain rfl := Span.of_custom hfits hspan
    simp only [Bool.or_eq_true, decide_eq_true_eq]
    split_ifs <;> omega
  | UNDEFINED => cases hspan

/-- No window starts in front of the head room. -/
theorem Span.taps_le (hfits : FitsInt x h y spanType start len)
    (hspan : Span.of x h start len spanType = some span) :
    h.size ≤ span.start + (span.padded x).start + 1 := by
  rw [Span.padded_start]
  cases spanType with
  | START_ONLY =>
    obtain rfl := Option.some.inj hspan
    simp only [decide_eq_true_eq]
    split_ifs <;> omega
  | NO_DELAY =>
    obtain rfl := Option.some.inj hspan
    simp only [if_true]
    omega
  | CUSTOM =>
    obtain rfl := Span.of_custom hfits hspan
    simp only [Bool.or_eq_true, decide_eq_true_eq]
    split_ifs <;> omega
  | UNDEFINED => cases hspan

/-- The padded input is small enough for the kernels. -/
theorem Span.padded_size_le (hfits : FitsInt x h y spanType start len)
    (hspan : Span.of x h start len spanType = some span) : (span.padded x).size ≤ 2 ^ 30 := by
  have hinput := hfits.input
  rw [Span.padded_size]
  cases spanType with
  | START_ONLY =>
    obtain rfl := Option.some.inj hspan
    simp only [Nat.add_zero, ite_self]
    omega
  | NO_DELAY =>
    obtain rfl := Option.some.inj hspan
    simp only [if_true]
    omega
  | CUSTOM =>
    have hwindow := hfits.window rfl
    obtain rfl := Span.of_custom hfits hspan
    simp only [Bool.or_eq_true, decide_eq_true_eq]
    split_ifs <;> omega
  | UNDEFINED => cases hspan

/-- The start and the length that the kernel gets are those of the span. -/
theorem Span.i32_eq (hfits : FitsInt x h y spanType start len)
    (hspan : Span.of x h start len spanType = some span) :
    i32 span.start = span.start ∧ i32 span.len = span.len := by
  have hend := Span.start_add_len_le hfits hspan
  have hsize := Span.padded_size_le hfits hspan
  exact ⟨i32_natCast (by omega), i32_natCast (by omega)⟩

/-- **The padding holds every sample that is read**: the head room what lies in front of the input,
the tail what lies behind it. -/
theorem Span.reads_within (hfits : FitsInt x h y spanType start len)
    (hspan : Span.of x h start len spanType = some span) {i : ℕ} (hi : i < span.len) {t : ℤ}
    (ht : span.Reads h.size i t) :
    -((span.padded x).start : ℤ) ≤ t ∧ t < (span.padded x).size := by
  have hend := Span.start_add_len_le hfits hspan
  have hhead := Span.taps_le hfits hspan
  obtain ⟨k, hk, ht⟩ := ht
  rw [(Span.i32_eq hfits hspan).1] at ht
  constructor <;> omega

/-- A copy has zeros around the input. -/
theorem SignalVector.sample_withRoom (x : SignalVector R) (start tail : ℕ) (t : ℤ) :
    (x.withRoom start tail).sample t = if 0 ≤ t ∧ t < x.size then x.sample t else 0 := by
  simp only [sample, Loop.loadPair, SignalVector.withRoom]
  split_ifs with hlo hhi hin hin hhi hin hin <;> first | rfl | omega

/-- What a kernel reads from the padded input is the input as it goes on at both ends. -/
theorem Span.sample_padded (hfits : FitsInt x h y spanType start len)
    (hspan : Span.of x h start len spanType = some span) {i : ℕ} (hi : i < span.len) {t : ℤ}
    (ht : span.Reads h.size i t) : (span.padded x).sample t = x.extended h spanType t := by
  have hwithin := Span.reads_within hfits hspan hi ht
  unfold Span.padded at hwithin ⊢
  unfold SignalVector.extended
  split_ifs at hwithin ⊢ with happend hin hhead hin hhead
  · rw [SignalVector.sample_withRoom, if_pos hin]
  · -- a vector with the head room for its filter is not copied
    obtain ⟨rfl, hroom, -⟩ := hhead
    obtain rfl := Option.some.inj hspan
    simp only [decide_eq_true_eq] at happend
    omega
  · rw [SignalVector.sample_withRoom, if_neg hin]
  · rfl
  · rfl
  · cases spanType with
    | START_ONLY =>
      obtain rfl := Option.some.inj hspan
      simp only [decide_eq_true_eq] at happend
      exact absurd ⟨rfl, by omega, hwithin.1, by omega⟩ hhead
    | NO_DELAY =>
      obtain rfl := Option.some.inj hspan
      exact absurd rfl happend
    | CUSTOM =>
      -- not copied: no window starts in front of the input
      obtain ⟨k, hk, ht⟩ := ht
      rw [(Span.i32_eq hfits hspan).1] at ht
      obtain rfl := Span.of_custom hfits hspan
      simp only [Bool.or_eq_true, decide_eq_true_eq] at happend hin hi hwithin ht
      omega
    | UNDEFINED => cases hspan

/-- Of a call whose output is long enough the bounds check refuses what has no output, or an input
that is shorter than the filter. -/
theorem Span.boundsCheck_neg_iff (hfits : FitsInt x h y spanType start len)
    (hspan : Span.of x h start len spanType = some span) (hpos : 1 ≤ h.size) {yLen : ℕ}
    (hy : span.len ≤ yLen) :
    boundsCheck (span.padded x).size h.size yLen span.start span.len < 0 ↔
      span.len < 1 ∨ (span.padded x).size < h.size := by
  have hend := Span.start_add_len_le hfits hspan
  unfold boundsCheck
  split_ifs with hinvalid hboundary
  · refine iff_of_true (by norm_num) ?_
    omega
  · refine iff_of_true (by norm_num) ?_
    omega
  · refine iff_of_false (lt_irrefl 0) ?_
    omega

end Padding

/-! ## The wrapper -/

/-- What `r` holds after a convolution into `y`, or into a new vector. -/
structure ConvolvedInto (x h : SignalVector R) (y : Option (SignalVector R)) (spanType : ConvType)
    (span : Span) (r : SignalVector R) : Prop where
  /-- Each sample is the sum of the taps, each times the sample that it meets. -/
  sample_eq : ∀ i < span.len, r.sample i = ∑ k ∈ Finset.range h.size,
    cmul (x.extended h spanType (i + span.start - (h.size - 1) + k)) (h.tap k)
  /-- What is read lies in the padded input. -/
  reads : ∀ i < span.len, ∀ t, span.Reads h.size i t →
    -((span.padded x).start : ℤ) ≤ t ∧ t < (span.padded x).size
  /-- What is written lies in the output. -/
  writes : span.len ≤ r.size
  /-- The rest of a given output stays. -/
  rest : ∀ z, y = some z → r.size = z.size ∧ r.start = z.start ∧
    ∀ t : ℤ, t < 0 ∨ span.len ≤ t → r.sample t = z.sample t

section Wrapper

variable {x h : SignalVector R} {y : Option (SignalVector R)} {start len : ℕ} {spanType : ConvType}
  {span : Span}

omit [CommRing R] in
theorem elim_short_iff {n : ℕ} :
    y.elim false (fun y => decide (n > y.size)) = true ↔ ∃ z, y = some z ∧ z.size < n := by
  cases y with
  | none => simp
  | some z => simp

/-- A filled output is the convolution: the samples read are those of the extended input. -/
theorem convolvedInto_pairs (hfits : FitsInt x h y spanType start len)
    (hspan : Span.of x h start len spanType = some span) {out : SignalVector R}
    (hout : ∀ z, y = some z → z = out) (hlen : span.len ≤ out.size) :
    ConvolvedInto x h y spanType span
      { out with
        data := Loop.pairs span.len (fun i => ∑ k ∈ Finset.range h.size,
          cmul ((span.padded x).sample (i - (h.size - 1) + span.start + k)) (h.tap k))
          out.data } where
  sample_eq i hi := by
    rw [SignalVector.sample, Loop.loadPair_pairs _ _ hi]
    refine Finset.sum_congr rfl fun k hk => ?_
    have hread : span.Reads h.size i (i - (h.size - 1) + span.start + k) :=
      ⟨k, Finset.mem_range.mp hk, by rw [(Span.i32_eq hfits hspan).1]⟩
    rw [Span.sample_padded hfits hspan hi hread]
    congr 2
    ring
  reads i hi t ht := Span.reads_within hfits hspan hi ht
  writes := hlen
  rest z hz := by
    obtain rfl := hout z hz
    refine ⟨rfl, rfl, fun t ht => ?_⟩
    rcases ht with ht | ht
    · rw [SignalVector.sample, Loop.loadPair_pairs_of_neg _ _ _ ht]
      rfl
    · simp only [SignalVector.sample, Loop.loadPair]
      rw [Loop.pairs_of_ge _ _ _ (by omega), Loop.pairs_of_ge _ _ _ (by omega)]

/-- The input that the kernel gets: a copy ends. -/
theorem Span.input_eq (hfits : FitsInt x h y spanType start len) :
    (if span.append then x.extend span.head span.tail else some x) = some (span.padded x) := by
  have hinput := hfits.input
  unfold Span.padded
  split_ifs
  · exact extend_eq_some (by omega) _ _
  · rfl

/-- What a call with a long enough output does. -/
theorem convolve_of_long_enough (sse3 : Bool) (mem : ℤ → R)
    (hfits : FitsInt x h y spanType start len)
    (hspan : Span.of x h start len spanType = some span)
    (hlong : ¬ y.elim false (fun y => decide (span.len > y.size)) = true) :
    ∃ out, (∀ z, y = some z → z = out) ∧ span.len ≤ out.size ∧
      convolve (convolveInit sse3) mem x h y spanType start len =
        if boundsCheck (span.padded x).size h.size out.size span.start span.len < 0 then none
        else some { out with
          data := Loop.pairs span.len (fun i => ∑ k ∈ Finset.range h.size,
            cmul ((span.padded x).sample (i - (h.size - 1) + span.start + k)) (h.tap k))
            out.data } := by
  have hinput := hfits.input
  have hsize := Span.padded_size_le hfits hspan
  obtain ⟨hstart, hlen⟩ := Span.i32_eq hfits hspan
  obtain ⟨out, hout, hgetD, hle, hint⟩ : ∃ out, (∀ z, y = some z → z = out) ∧
      y.getD ⟨mem, span.len, 0, false, false⟩ = out ∧ span.len ≤ out.size ∧
      i32 out.size = out.size := by
    cases y with
    | none => exact ⟨_, fun z hz => (Option.some_ne_none z hz.symm).elim, rfl, le_rfl, hlen⟩
    | some z =>
      exact ⟨z, fun _ hz => (Option.some.inj hz).symm, rfl, by simpa using hlong,
        i32_natCast (hfits.output z rfl)⟩
  refine ⟨out, hout, hle, ?_⟩
  simp only [convolve, hspan, if_neg hlong, Span.input_eq hfits, hgetD, hint, hstart, hlen,
    i32_natCast (show h.size < 2 ^ 31 by omega), i32_natCast (show (span.padded x).size < 2 ^ 31 by
      omega)]
  rw [kernel_eq]
  split_ifs with hneg hlen hlen <;> first | rfl | omega

/-- An output that is made has the length of the span, and one that is given keeps its own. -/
theorem convolve_size {c : ConvolveCpuContext R} {mem : ℤ → R}
    {r : SignalVector R} (hr : convolve c mem x h y spanType start len = some r)
    (hspan : Span.of x h start len spanType = some span) :
    r.size = y.elim span.len SignalVector.size := by
  simp only [convolve, hspan] at hr
  split at hr
  · cases hr
  · split at hr
    · cases hr
    · split_ifs at hr
      obtain rfl := Option.some.inj hr
      cases y <;> rfl

/-- A call with something to compute, a long enough output and an input that is not shorter than the
filter succeeds. -/
theorem convolve_within (sse3 : Bool) (mem : ℤ → R) (hpos : 1 ≤ h.size)
    (hfits : FitsInt x h y spanType start len)
    (hspan : Span.of x h start len spanType = some span) (hlen : 1 ≤ span.len)
    (hlong : ∀ z, y = some z → span.len ≤ z.size) (htaps : h.size ≤ (span.padded x).size) :
    ∃ r, convolve (convolveInit sse3) mem x h y spanType start len = some r ∧
      r.size = y.elim span.len SignalVector.size ∧ ConvolvedInto x h y spanType span r := by
  have hshort : ¬ y.elim false (fun y => decide (span.len > y.size)) = true := by
    rw [elim_short_iff]
    rintro ⟨z, hz, hlt⟩
    have := hlong z hz
    omega
  obtain ⟨out, hout, hle, heq⟩ := convolve_of_long_enough sse3 mem hfits hspan hshort
  have hbounds : ¬ boundsCheck (span.padded x).size h.size out.size span.start span.len < 0 := by
    rw [Span.boundsCheck_neg_iff hfits hspan hpos hle]
    omega
  rw [if_neg hbounds] at heq
  exact ⟨_, heq, convolve_size heq hspan, convolvedInto_pairs hfits hspan hout hle⟩

/-- **The wrapper computes the convolution in bounds.**  For every filter, real or complex, aligned
or not, every output, span type, start and length: the call gives NULL just if a given output is
too short, there is nothing to compute, or the padded input is shorter than the filter.  Otherwise
each sample of the output is the sum over the window that ends at its own place in the input,
which goes on with zeros at both ends or with its head room, and no sample is accessed outside of
the padded input and the output.  The sizes are such that the `int`s of the kernels hold them. -/
theorem convolve_spans (sse3 : Bool) (mem : ℤ → R) (x h : SignalVector R)
    (y : Option (SignalVector R)) (spanType : ConvType) (start len : ℕ) (hpos : 1 ≤ h.size)
    (htype : spanType ≠ .UNDEFINED) (hfits : FitsInt x h y spanType start len) :
    ∃ span, Span.of x h start len spanType = some span ∧
      (convolve (convolveInit sse3) mem x h y spanType start len = none ↔
        (∃ z, y = some z ∧ z.size < span.len) ∨ span.len < 1 ∨ (span.padded x).size < h.size) ∧
      ∀ r, convolve (convolveInit sse3) mem x h y spanType start len = some r →
        ConvolvedInto x h y spanType span r := by
  obtain ⟨span, hspan⟩ := Span.exists_of x h start len htype
  refine ⟨span, hspan, ?_⟩
  rw [← elim_short_iff]
  by_cases hshort : y.elim false (fun y => decide (span.len > y.size)) = true
  · have hnull : convolve (convolveInit sse3) mem x h y spanType start len = none := by
      simp only [convolve, hspan, if_pos hshort]
    refine ⟨iff_of_true hnull (Or.inl hshort), fun r hr => ?_⟩
    rw [hnull] at hr
    cases hr
  · obtain ⟨out, hout, hlen, heq⟩ := convolve_of_long_enough sse3 mem hfits hspan hshort
    have hbounds := Span.boundsCheck_neg_iff hfits hspan hpos hlen
    rw [heq]
    split_ifs with hneg
    · refine ⟨iff_of_true rfl (Or.inr (hbounds.mp hneg)), fun r hr => ?_⟩
      cases hr
    · refine ⟨iff_of_false (by simp) (by tauto), fun r hr => ?_⟩
      obtain rfl := Option.some.inj hr
      exact convolvedInto_pairs hfits hspan hout hlen

/-- Three samples and a filter of two ones: the last output meets one zero behind the input. -/
theorem convolve_spans_three :
    ∃ r, convolve (convolveInit true) (fun _ => 7) ⟨fun j : ℤ => j, 3, 0, false, false⟩
      ⟨fun _ => 1, 2, 0, true, false⟩ none .NO_DELAY 0 0 = some r ∧
      r.sample (0 : ℕ) = (2, 4) ∧ r.sample (2 : ℕ) = (4, 5) := by
  obtain ⟨span, hspan, hnull, hinto⟩ := convolve_spans true (fun _ => 7)
    ⟨fun j : ℤ => j, 3, 0, false, false⟩ ⟨fun _ => 1, 2, 0, true, false⟩ none .NO_DELAY 0 0
    (by decide) (by decide)
    (.fresh (by decide) (by decide))
  obtain rfl := Option.some.inj hspan
  obtain ⟨r, hr⟩ := Option.ne_none_iff_exists'.mp (hnull.not.mpr (by decide))
  have hsample := (hinto r hr).sample_eq
  refine ⟨r, hr, ?_, ?_⟩
  · rw [hsample 0 (by decide)]
    decide
  · rw [hsample 2 (by decide)]
    decide

/-- A start of `2 ^ 64 - 1` and a length of two: their sum wraps to one, so that nothing is padded,
and the kernel gets a start of minus one.  The call gives a result, and three samples in front of
an input without head room are read. -/
theorem convolve_wrapped :
    let x : SignalVector ℤ := ⟨fun j => j, 5, 0, false, false⟩
    let h : SignalVector ℤ := ⟨fun _ => 1, 3, 0, true, false⟩
    (convolve (convolveInit false) (fun _ => 0) x h none .CUSTOM (2 ^ 64 - 1) 2).isSome = true ∧
      ∃ span, Span.of x h (2 ^ 64 - 1) 2 .CUSTOM = some span ∧ (span.padded x).start = 0 ∧
        span.Reads h.size 0 (-3) := by
  refine ⟨by decide +kernel, _, rfl, by decide +kernel, 0, by decide, by decide +kernel⟩

end Wrapper

end Dsp
end OsmoTrx
