import OsmoTrx.Trx.Isolation

/-!
# The delay limits

A delay limit comes as a decimal number in SETMAXDLY or SETMAXDLYNB, is kept as an `unsigned`, and
becomes the length of the window in which `sigProcLib.cpp` searches a burst.  Nothing on the way
looks at it.

* `searchWindow` — the window that the three detection functions set up, with its `int` and
  `unsigned` arithmetic; `detectAnyBurst` lists the searches for a burst.
* `Usable` — what a window is to be for a limit.
* `searchWindow_usable_iff` — for which limits it is.
* `maxToa_exec` — a limit stays until the next command for it.
* `delay_window_iff` — **which accepted limits give every later burst a usable window.**
-/

namespace OsmoTrx
namespace Trx

open CText

/-! ## The code -/

/-- An `int` as a `size_t`. -/
def sizeT (x : ℤ) : ℕ := (x % 2 ^ 64).toNat

/-- The correlation window parameters of `detectGeneralBurst`. -/
structure SearchWindow where
  target : ℤ
  head : ℤ
  tail : ℤ
  deriving DecidableEq, Repr

namespace SearchWindow

/-- `start = target - head - 1`. -/
def start (w : SearchWindow) : ℤ := w.target - w.head - 1

/-- `len = head + tail`, an `int`. -/
def len (w : SearchWindow) : ℤ := i32 (w.head + w.tail)

/-- The number of elements of `signalVector corr(len)`. -/
def corrSize (w : SearchWindow) : ℕ := sizeT w.len

/-- The place in the correlation of a burst that is `d` symbols late: there the window of the
convolution ends with the last symbol of the sequence, which is symbol `target - 1` of a burst in
time. -/
def peak (w : SearchWindow) (d : ℤ) : ℤ := w.target - 1 + d - w.start

/-- `detectBurst` goes on with a peak that is not at an edge of the correlation. -/
def Reports (w : SearchWindow) (toa : ℚ) : Prop := ¬ (toa < 3 ∨ toa > w.len - 3)

end SearchWindow

/-- The window of a detection function: as many symbols after the target as before it, and the
greatest delay, which is `unsigned`. -/
def searchWindow (target head max_toa : ℤ) : SearchWindow where
  target := target
  head := head
  tail := i32 (u32 (head + max_toa))

/-- `detectRACHBurst`. -/
def detectRACHBurst (max_toa : ℤ) : SearchWindow := searchWindow (8 + 40) 8 max_toa

/-- `analyzeTrafficBurst`. -/
def analyzeTrafficBurst (max_toa : ℤ) : SearchWindow := searchWindow (3 + 58 + 16 + 5) 6 max_toa

/-- `detectEdgeBurst`. -/
def detectEdgeBurst (max_toa : ℤ) : SearchWindow := searchWindow (3 + 58 + 16 + 5) 6 max_toa

/-- `detectAnyBurst`: the searches for a burst, as long as none finds it. -/
def detectAnyBurst (type : CorrType) (max_toa : ℤ) : List SearchWindow :=
  match type with
  | .EDGE => [detectEdgeBurst max_toa, analyzeTrafficBurst max_toa]
  | .TSC => [analyzeTrafficBurst max_toa]
  | .EXT_RACH => List.replicate 3 (detectRACHBurst max_toa)
  | .RACH => [detectRACHBurst max_toa]
  | .OFF | .IDLE => []

variable {n : ℕ} {V ρ : Type} {Q : BurstQueue V}

/-- `max_toa` of `pullRadioVector`. -/
def Transceiver.maxToa (t : Transceiver n Q) (type : CorrType) : ℤ :=
  if type = .RACH ∨ type = .EXT_RACH then t.mMaxExpectedDelayAB else t.mMaxExpectedDelayNB

/-! ## Usable windows -/

/-- **What a window is to be** for a limit that has been given as `limit` and arrives as
`max_toa`. -/
structure Usable (w : SearchWindow) (limit max_toa : ℤ) : Prop where
  /-- No conversion or sum on the way wraps around. -/
  exact : max_toa = limit ∧ u32 (w.head + max_toa) = w.head + max_toa ∧
    w.tail = w.head + max_toa ∧ w.len = w.head + w.tail
  len_pos : 0 < w.len
  corr : (w.corrSize : ℤ) = w.len
  /-- Every delay up to the limit is reported, with a time lag of the sequence of at most three
  symbols. -/
  wide : ∀ d : ℤ, 0 ≤ d → d ≤ limit → ∀ lag : ℚ, |lag| ≤ 3 → w.Reports (w.peak d + lag)

theorem sizeT_eq {x : ℤ} (h0 : 0 ≤ x) (hlt : x < 2 ^ 64) : (sizeT x : ℤ) = x := by
  rw [sizeT, Int.emod_eq_of_lt h0 hlt, Int.toNat_of_nonneg h0]

theorem sizeT_natCast {x : ℕ} (h : x < 2 ^ 64) : sizeT x = x := by
  have hcast := sizeT_eq (Int.natCast_nonneg x) (by omega)
  exact_mod_cast hcast

theorem u32_eq_self_iff {x : ℤ} : u32 x = x ↔ 0 ≤ x ∧ x < 2 ^ 32 := by
  constructor
  · intro h
    rw [← h]
    exact ⟨Int.emod_nonneg x (by norm_num), Int.emod_lt_of_pos x (by norm_num)⟩
  · rintro ⟨h0, hlt⟩
    exact u32_eq_self h0 hlt

/-- **For which limits a window is usable**: those that are not negative and leave the length an
`int`. -/
theorem searchWindow_usable_iff (target : ℤ) {head limit : ℤ} (hlo : 6 ≤ head) (hhi : head ≤ 8)
    (hint : limit < 2 ^ 31) :
    Usable (searchWindow target head (u32 limit)) limit (u32 limit) ↔
      0 ≤ limit ∧ limit + 2 * head ≤ 2 ^ 31 - 1 := by
  constructor
  · rintro ⟨⟨hlimit, -, htail, hlen⟩, -, -, -⟩
    have hrange := (i32_range ((searchWindow target head (u32 limit)).head +
      (searchWindow target head (u32 limit)).tail)).2
    have hnonneg := (u32_eq_self_iff.mp hlimit).1
    rw [← SearchWindow.len, hlen, htail, hlimit] at hrange
    simp only [searchWindow] at hrange
    exact ⟨hnonneg, by omega⟩
  · rintro ⟨h0, hmax⟩
    have hlimit : u32 limit = limit := u32_eq_self h0 (by omega)
    have hsum : u32 (head + limit) = head + limit := u32_eq_self (by omega) (by omega)
    have htail : (searchWindow target head limit).tail = head + limit := by
      rw [searchWindow, hsum]
      exact i32_eq_self (by omega) (by omega)
    have hlen : (searchWindow target head limit).len = head + (head + limit) := by
      rw [SearchWindow.len, htail]
      exact i32_eq_self (by simp only [searchWindow]; omega) (by simp only [searchWindow]; omega)
    rw [hlimit]
    refine ⟨⟨rfl, hsum, htail, by rw [hlen, htail]; rfl⟩, by omega, ?_, ?_⟩
    · exact sizeT_eq (by omega) (by omega)
    · intro d hd0 hd lag hlag
      have hpeak : (searchWindow target head limit).peak d = head + d := by
        simp only [SearchWindow.peak, SearchWindow.start, searchWindow]
        ring
      obtain ⟨hlag0, hlag1⟩ := abs_le.mp hlag
      have hd0' : (0 : ℚ) ≤ d := by exact_mod_cast hd0
      have hd' : (d : ℚ) ≤ limit := by exact_mod_cast hd
      have hlo' : (6 : ℚ) ≤ head := by exact_mod_cast hlo
      rw [SearchWindow.Reports, hpeak, hlen]
      push_cast
      rintro (h | h) <;> linarith

/-! ## The limit in force -/

/-- The command that sets the limit for a type of burst. -/
def limitCommand : CorrType → Command
  | .RACH | .EXT_RACH => .SETMAXDLY
  | _ => .SETMAXDLYNB

/-- The symbols searched before the target. -/
def searchHead : CorrType → ℤ
  | .RACH | .EXT_RACH => 8
  | _ => 6

/-- The number of a limit command is an `int`, whatever has been read. -/
theorem limit_lt (junk : ℕ → ℤ) (type : CorrType) (params : List Char) :
    argument junk (limitCommand type) params 0 < 2 ^ 31 := by
  have hconv : (limitCommand type).conversions = [.d] := by cases type <;> rfl
  have hinit : (limitCommand type).initialised = false := by cases type <;> rfl
  unfold argument
  rw [hconv, hinit]
  cases h : (sscanf [.d] params)[0]? with
  | none => exact (i32_range _).2
  | some v =>
    obtain ⟨w, rfl⟩ := sscanf_store h
    exact (i32_range _).2

section Limit

variable (R : RadioCalls ρ n) (junk : ℕ → ℤ) (t : Transceiver n Q) (r : ρ) (chan : Fin n)
  (type : CorrType) (params : List Char)

/-- A limit command is carried out, and answered with status 0, for any number. -/
theorem handle_limitCommand :
    (handle R junk t r chan (limitCommand type) params).response =
        some (rsp (limitCommand type) '0' [argument junk (limitCommand type) params 0]) ∧
      (handle R junk t r chan (limitCommand type) params).trx.maxToa type =
        u32 (argument junk (limitCommand type) params 0) := by
  cases type <;> exact ⟨rfl, rfl⟩

/-- The other commands leave the two limits alone. -/
theorem handle_limits {c : Command} :
    (c ≠ .SETMAXDLY → (handle R junk t r chan c params).trx.mMaxExpectedDelayAB =
      t.mMaxExpectedDelayAB) ∧
    (c ≠ .SETMAXDLYNB → (handle R junk t r chan c params).trx.mMaxExpectedDelayNB =
      t.mMaxExpectedDelayNB) := by
  cases c with
  | SETMAXDLY => exact ⟨fun h => absurd rfl h, fun _ => rfl⟩
  | SETMAXDLYNB => exact ⟨fun _ => rfl, fun h => absurd rfl h⟩
  | POWEROFF =>
    obtain ⟨_, _, heq⟩ := t.stop_writes R r
    rw [handle, heq]
    exact ⟨fun _ => rfl, fun _ => rfl⟩
  | POWERON =>
    obtain ⟨_, _, _, _, _, _, heq⟩ := handle_poweron_trx R junk t r chan params
    rw [heq]
    exact ⟨fun _ => rfl, fun _ => rfl⟩
  | RXTUNE =>
    rw [handle_rxtune_trx]
    exact ⟨fun _ => rfl, fun _ => rfl⟩
  | TXTUNE =>
    rw [handle_txtune_trx]
    exact ⟨fun _ => rfl, fun _ => rfl⟩
  | HANDOVER =>
    simp only [handle]
    split_ifs <;> exact ⟨fun _ => rfl, fun _ => rfl⟩
  | NOHANDOVER =>
    simp only [handle]
    split_ifs <;> exact ⟨fun _ => rfl, fun _ => rfl⟩
  | NOISELEV =>
    rw [handle_noiselev_trx]
    exact ⟨fun _ => rfl, fun _ => rfl⟩
  | SETTSC =>
    simp only [handle]
    split_ifs <;> exact ⟨fun _ => rfl, fun _ => rfl⟩
  | SETSLOT =>
    simp only [handle]
    split_ifs <;> exact ⟨fun _ => rfl, fun _ => rfl⟩
  | _ => exact ⟨fun _ => rfl, fun _ => rfl⟩

end Limit

/-! ## Later bursts -/

section Later

variable (R : RadioCalls ρ n) {type : CorrType}

/-- The datagram is not taken for the command that sets the limit for `type`. -/
def OtherCommand (type : CorrType) (e : ControlEvent n) : Prop :=
  ∀ params, recognised e.msg ≠ some (limitCommand type, params)

/-- One datagram with another command keeps the limit. -/
theorem maxToa_controlStep (s : Transceiver n Q × ρ) {e : ControlEvent n}
    (h : OtherCommand type e) : (controlStep R s e).1.maxToa type = s.1.maxToa type := by
  unfold controlStep
  cases hrec : recognised e.msg with
  | none => rw [driveControl_of_unrecognised R e.junk s.1 s.2 e.chan hrec]
  | some p =>
    obtain ⟨c, params⟩ := p
    rw [driveControl_of_recognised R e.junk s.1 s.2 e.chan hrec]
    have hne : c ≠ limitCommand type := by
      rintro rfl
      exact h params hrec
    obtain ⟨hAB, hNB⟩ := handle_limits R e.junk s.1 s.2 e.chan params (c := c)
    cases type with
    | RACH => exact hAB hne
    | EXT_RACH => exact hAB hne
    | OFF => exact hNB hne
    | TSC => exact hNB hne
    | EDGE => exact hNB hne
    | IDLE => exact hNB hne

/-- A limit stays until the next command for it. -/
theorem maxToa_exec (s : Transceiver n Q × ρ) {events : List (ControlEvent n)}
    (h : ∀ e ∈ events, OtherCommand type e) :
    (Run.exec (controlStep R) s events).1.maxToa type = s.1.maxToa type := by
  have hkept : ∀ (s' : Transceiver n Q × ρ) (e : ControlEvent n),
      s'.1.maxToa type = s.1.maxToa type → OtherCommand type e →
      (controlStep R s' e).1.maxToa type = s.1.maxToa type := by
    intro s' e hs' he
    rw [maxToa_controlStep R s' he, hs']
  exact Run.invariant_exec hkept rfl (Run.along_of_forall h)

/-- The searches for a type of burst have one head. -/
theorem detectAnyBurst_head {w : SearchWindow} {max_toa : ℤ} (h : w ∈ detectAnyBurst type max_toa) :
    ∃ target, w = searchWindow target (searchHead type) max_toa := by
  cases type with
  | OFF => cases h
  | IDLE => cases h
  | TSC => exact ⟨_, List.mem_singleton.mp h⟩
  | RACH => exact ⟨_, List.mem_singleton.mp h⟩
  | EXT_RACH => exact ⟨_, List.eq_of_mem_replicate h⟩
  | EDGE =>
    rcases List.mem_pair.mp h with rfl | rfl
    · exact ⟨_, rfl⟩
    · exact ⟨_, rfl⟩

/-- **The searches for a burst** are all usable for the limits that are not negative and leave
the length an `int`. -/
theorem detectAnyBurst_usable_iff {limit : ℤ} (htype : type ≠ .OFF ∧ type ≠ .IDLE)
    (hint : limit < 2 ^ 31) :
    (∀ w ∈ detectAnyBurst type (u32 limit), Usable w limit (u32 limit)) ↔
      0 ≤ limit ∧ limit + 2 * searchHead type ≤ 2 ^ 31 - 1 := by
  have hhead : 6 ≤ searchHead type ∧ searchHead type ≤ 8 := by
    cases type <;> decide
  constructor
  · intro h
    have hsome : ∃ w, w ∈ detectAnyBurst type (u32 limit) := by
      refine List.exists_mem_of_ne_nil _ ?_
      cases type with
      | OFF => exact absurd rfl htype.1
      | IDLE => exact absurd rfl htype.2
      | _ => exact List.cons_ne_nil _ _
    obtain ⟨w, hw⟩ := hsome
    obtain ⟨target, rfl⟩ := detectAnyBurst_head hw
    exact (searchWindow_usable_iff target hhead.1 hhead.2 hint).mp (h _ hw)
  · intro h w hw
    obtain ⟨target, rfl⟩ := detectAnyBurst_head hw
    exact (searchWindow_usable_iff target hhead.1 hhead.2 hint).mpr h

end Later

/-- **Which accepted limits give usable windows.**  Every limit command is answered with status
0.  The searches for any burst after it, up to the next command for the same limit, all have
usable windows if and only if the number is not negative and leaves the length of the window an
`int`. -/
theorem delay_window_iff (R : RadioCalls ρ n) (s : Transceiver n Q × ρ) (e : ControlEvent n)
    {type : CorrType} (htype : type ≠ .OFF ∧ type ≠ .IDLE) {params : List Char}
    (hrec : recognised e.msg = some (limitCommand type, params)) {later : List (ControlEvent n)}
    (hlater : ∀ e' ∈ later, OtherCommand type e') :
    let limit := argument e.junk (limitCommand type) params 0
    let s' := Run.exec (controlStep R) (controlStep R s e) later
    (driveControl R e.junk s.1 s.2 e.chan e.msg).sent =
        reply e.chan (rsp (limitCommand type) '0' [limit]) ∧
      ((∀ w ∈ detectAnyBurst type (s'.1.maxToa type), Usable w limit (s'.1.maxToa type)) ↔
        0 ≤ limit ∧ limit + 2 * searchHead type ≤ 2 ^ 31 - 1) := by
  intro limit s'
  obtain ⟨hresponse, hstored⟩ := handle_limitCommand R e.junk s.1 s.2 e.chan type params
  have hdrive := driveControl_of_recognised R e.junk s.1 s.2 e.chan hrec
  constructor
  · rw [hdrive, hresponse]
    rfl
  · have hmax : s'.1.maxToa type = u32 limit := by
      have hset : (controlStep R s e).1.maxToa type = u32 limit := by
        rw [controlStep, hdrive]
        exact hstored
      rw [← hset]
      exact maxToa_exec R _ hlater
    rw [hmax]
    exact detectAnyBurst_usable_iff htype (limit_lt e.junk type params)

/-- SETMAXDLY 63, the greatest delay of a cell with a radius of 35 km, then POWERON. -/
theorem delay_window_cell :
    let s := Run.exec (controlStep (obedientRadio 1))
      (controlStep (obedientRadio 1) (newTrx 1, ()) ⟨0, "CMD SETMAXDLY 63".toList, fun _ => 0⟩)
      [⟨0, "CMD POWERON".toList, fun _ => 0⟩]
    ∀ w ∈ detectAnyBurst .RACH (s.1.maxToa .RACH), Usable w 63 (s.1.maxToa .RACH) := by
  have hcommand : recognised "CMD SETMAXDLY 63".toList =
      some (limitCommand .RACH, "63".toList) := by decide
  have hother : ∀ e' ∈ [(⟨0, "CMD POWERON".toList, fun _ => 0⟩ : ControlEvent 1)],
      OtherCommand .RACH e' := by
    intro e' he' params h
    rw [List.mem_singleton.mp he', show recognised "CMD POWERON".toList =
      some (.POWERON, []) by decide] at h
    cases h
  have hargument : argument (fun _ => 0) (limitCommand .RACH) "63".toList 0 = 63 := by
    decide +kernel
  have h := (delay_window_iff (obedientRadio 1) (newTrx 1, ())
    ⟨0, "CMD SETMAXDLY 63".toList, fun _ => 0⟩ (by decide) hcommand hother).2
  rw [hargument] at h
  exact h.mpr (by decide)

/-- **SETMAXDLY -100** is answered with status 0, and the window of the next access burst has a
negative length, for which the vector of the correlation has nearly 2⁶⁴ elements. -/
theorem negative_limit_accepted :
    let e : ControlEvent 1 := ⟨0, "CMD SETMAXDLY -100".toList, fun _ => 0⟩
    let s := controlStep (obedientRadio 1) (newTrx 1, ()) e
    let w := detectRACHBurst (s.1.maxToa .RACH)
    (driveControl (obedientRadio 1) e.junk (newTrx 1) () e.chan e.msg).sent =
        reply 0 "RSP SETMAXDLY 0 -100".toList ∧
      w ∈ detectAnyBurst .RACH (s.1.maxToa .RACH) ∧
      w.tail = -92 ∧ w.len = -84 ∧ w.corrSize = 2 ^ 64 - 84 ∧
      ¬ Usable w (-100) (s.1.maxToa .RACH) := by
  intro e s w
  have hlen : w.len = -84 := by decide +kernel
  refine ⟨by decide +kernel, List.mem_singleton.mpr rfl, by decide +kernel, hlen,
    by decide +kernel, ?_⟩
  intro h
  have hpos := h.len_pos
  rw [hlen] at hpos
  exact absurd hpos (by decide)

end Trx
end OsmoTrx
