import TrustOnboard.MFReading
import TrustOnboard.MiasTemplate

/-! The progress of the read loops, for every card. A turn of `readEF`, `getCertificateByContainerId` or
`p11GetObjectByLabel` gets nearer to the declared size if its READ BINARY fails, or if the answer has data and no more
than the buffer has room for. -/

namespace TrustOnboard

open Exec Linked SEInterface

variable {σ : Type} {T : Transport σ} {channel : UInt8} {size : Nat}

/-- The exchange of the command returns. -/
def Ends (T : Transport σ) (card : σ) (apdu : List UInt8) : Prop := ∃ result card', Concludes T card apdu result card'

/-- If the command is answered `9000`, the loop variable goes up, and the data fit the bytes that are left. -/
def AnswersFit (T : Transport σ) (width left : Nat) (card : σ) (apdu : List UInt8) : Prop :=
  ∀ answer card', Concludes T card apdu (some answer) card' → statusWord answer = swOK →
    (responseData answer).length % width ≠ 0 ∧ (responseData answer).length ≤ left

/-- At most as many commands as the size, and nothing is stored behind it. -/
structure Confined (size : Nat) (out : Mem) (s s' : SEInterface σ) (out' : Mem) : Prop where
  reads : ∃ reads, Reports s s' reads ∧ reads.length ≤ size
  keeps : ∀ k, size ≤ k → out' k = out k

/-- A read loop makes progress: all states that it gets to are confined, and it ends in one. -/
structure Progresses {A α β : Type} (size : Nat) (out : Mem) (body : β → Exec (Linked σ A) (Turn β α)) (x : β)
    (s : Linked σ A) (buffer : β → Mem) (result : α → Mem) : Prop where
  every : ∀ x' s', Reaches body x s x' s' → Confined size out s.se s'.se (buffer x')
  ends : Attains (loop body x) s fun value s' => Confined size out s.se s'.se (result value)

/-- What a read loop keeps: no more commands than bytes before its position, and the buffer behind the size. -/
structure Advanced (size : Nat) (out : Mem) (s s' : SEInterface σ) (i : Nat) (out' : Mem) : Prop where
  le : i ≤ size
  reads : ∃ reads, Reports s s' reads ∧ reads.length ≤ i
  keeps : ∀ k, size ≤ k → out' k = out k

section Advanced

variable {out out' out'' : Mem} {s s' s'' : SEInterface σ} {i j : Nat} {issued : Concluded}

theorem Advanced.start (size : Nat) (out : Mem) (s : SEInterface σ) : Advanced size out s s 0 out :=
  ⟨Nat.zero_le _, ⟨[], .refl s, Nat.le_refl _⟩, fun _ _ => rfl⟩

theorem Advanced.confined (h : Advanced size out s s' i out') : Confined size out s s' out' := by
  obtain ⟨reads, hreports, hcount⟩ := h.reads
  exact ⟨⟨reads, hreports, Nat.le_trans hcount h.le⟩, h.keeps⟩

/-- One command more, which gets further. -/
theorem Advanced.step (h : Advanced size out s s' i out') (hreports : Reports s' s'' [issued]) (hmore : i < j)
    (hle : j ≤ size) (hkeeps : ∀ k, size ≤ k → out'' k = out' k) : Advanced size out s s'' j out'' := by
  obtain ⟨reads, hbefore, hcount⟩ := h.reads
  refine ⟨hle, ⟨[issued] ++ reads, hbefore.trans hreports, ?_⟩, fun k hk => (hkeeps k hk).trans (h.keeps k hk)⟩
  rw [List.length_append, List.length_singleton]
  omega

end Advanced

/-- Data that fit are stored before the size. -/
theorem write_keeps {data : List UInt8} {i : Nat} (out : Mem) (h : data.length ≤ size - i) (hmore : i < size) {k : Nat}
    (hk : size ≤ k) : out.write i data k = out k := by
  rw [Mem.write_of_ge (by omega)]

/-! ### The turns -/

namespace MF

/-- The command that the loop of `readEF` issues at position `i`. -/
def readAt (channel : UInt8) (size i : Nat) : List UInt8 :=
  Mias.readApdu channel i (lowByte (if 255 ≤ size - i then 255 else size - i))

theorem readTurn_lowers (hsize : size < 65536) {out : Mem} {s₀ : SEInterface σ} {s : Linked σ Applet} {x : Nat × Mem}
    (hopen : Open channel s.obj) (h : Advanced size out s₀ s.se x.1 x.2)
    (hends : x.1 < size → Ends T s.se.card (readAt channel size x.1))
    (hfit : x.1 < size → AnswersFit T 65536 (size - x.1) s.se.card (readAt channel size x.1)) :
    Attains (readTurn T size x) s
      (Lowers (fun x s' => Open channel s'.obj ∧ Advanced size out s₀ s'.se x.1 x.2) (fun x => size - x.1)
        (fun value s' => Confined size out s₀ s'.se value.2) x) := by
  have hle := h.le
  unfold readTurn
  by_cases hmore : x.1 < size
  · rw [if_pos hmore]
    obtain ⟨result, card, hconcludes⟩ := hends hmore
    refine (read_concludes hopen hconcludes).bind_attains fun s₁ hs₁ => ?_
    obtain ⟨hobj, hafter⟩ := hs₁
    rw [← hobj] at hopen
    cases haccepted : Applet.acceptedResult result with
    | false =>
        -- the loop gives up; the command is one more than the bytes before
        obtain ⟨reads, hreports, hcount⟩ := h.reads
        refine .pure ⟨⟨[_] ++ reads, hreports.trans hafter.reports, ?_⟩, h.keeps⟩
        rw [List.length_append, List.length_singleton]
        omega
    | true =>
        obtain ⟨answer, rfl, hsw⟩ := Applet.answer_of_accepted haccepted
        obtain ⟨hdata, hroom⟩ := hfit hmore answer card hconcludes hsw
        have hresponse : Applet.getResponse s₁ = responseData answer := by
          rw [Applet.getResponse, if_pos hopen.isSelected, (hafter.holds answer rfl).getResponse]
        have hnext : (x.1 + (responseData answer).length) % 65536 = x.1 + (responseData answer).length :=
          Nat.mod_eq_of_lt (by omega)
        have hpos : 0 < (responseData answer).length := by
          by_contra hzero
          exact hdata (by rw [Nat.eq_zero_of_not_pos hzero])
        rw [if_pos rfl]
        apply Attains.gets_bind
        rw [hresponse, hnext]
        refine .pure ⟨⟨hopen, h.step hafter.reports (by omega) (by omega) fun k hk =>
          write_keeps x.2 hroom hmore hk⟩, ?_⟩
        show size - (x.1 + (responseData answer).length) < size - x.1
        omega
  · rw [if_neg hmore]
    exact .pure h.confined

end MF

namespace Mias

/-- The command that the other loops issue. -/
def chunkAt (channel : UInt8) (size : Nat) (x : Cursor) : List UInt8 :=
  readApdu channel x.offset (lowByte (chunkLen size x.i))

theorem chunkTurn_lowers (hsize : size < 65536) {width : Nat} {out : Mem} {s₀ : SEInterface σ}
    {s : Linked σ Mias} {x : Cursor} (hready : Ready channel s.obj) (h : Advanced size out s₀ s.se x.i x.out)
    (hends : x.i < size → Ends T s.se.card (chunkAt channel size x))
    (hfit : x.i < size → AnswersFit T width (size - x.i) s.se.card (chunkAt channel size x)) :
    Attains (chunkTurn T width size x) s
      (Lowers (fun x s' => Ready channel s'.obj ∧ Advanced size out s₀ s'.se x.i x.out) (fun x => size - x.i)
        (fun value s' => Confined size out s₀ s'.se value) x) := by
  have hle := h.le
  unfold chunkTurn
  by_cases hmore : x.i < size
  · rw [if_pos hmore]
    have hchunk := chunkLen_le hmore
    obtain ⟨result, card, hconcludes⟩ := hends hmore
    refine (okReadBinary_concludes hready hconcludes).bind_attains fun s₁ hs₁ => ?_
    obtain ⟨hobj, hafter⟩ := hs₁
    rw [← hobj] at hready
    cases haccepted : Applet.acceptedResult result with
    | false =>
        -- the loop goes on behind the chunk
        have hnext : (x.i + chunkLen size x.i) % 65536 = x.i + chunkLen size x.i := Nat.mod_eq_of_lt (by omega)
        have hstep : Advanced size out s₀ s₁.se (x.i + chunkLen size x.i) x.out :=
          h.step hafter.reports (by omega) hchunk.2.2 fun _ _ => rfl
        refine .pure ⟨⟨hready, ?_⟩, ?_⟩
        · show Advanced size out s₀ s₁.se ((x.i + chunkLen size x.i) % 65536) x.out
          rw [hnext]
          exact hstep
        · show size - (x.i + chunkLen size x.i) % 65536 < size - x.i
          omega
    | true =>
        obtain ⟨answer, rfl, hsw⟩ := Applet.answer_of_accepted haccepted
        obtain ⟨hdata, hroom⟩ := hfit hmore answer card hconcludes hsw
        have hresponse : Evals response s₁ (responseData answer) s₁ := by
          refine .of_eq fun fuel => ?_
          rw [response_done hready.isSelected (hafter.holds answer rfl)]
        have hcut := Nat.mod_le (responseData answer).length width
        have hnext : (x.i + (responseData answer).length % width) % 65536 =
            x.i + (responseData answer).length % width :=
          Nat.mod_eq_of_lt (by omega)
        have hstep : Advanced size out s₀ s₁.se (x.i + (responseData answer).length % width)
            (x.out.write x.i (responseData answer)) :=
          h.step hafter.reports (by omega) (by omega) fun k hk => write_keeps x.out hroom hmore hk
        rw [if_pos rfl]
        refine Yields.bind_attains ⟨s₁, hresponse, rfl⟩ fun s₂ hs₂ => ?_
        subst hs₂
        refine .pure ⟨⟨hready, ?_⟩, ?_⟩
        · show Advanced size out s₀ _ ((x.i + (responseData answer).length % width) % 65536) _
          rw [hnext]
          exact hstep
        · show size - (x.i + (responseData answer).length % width) % 65536 < size - x.i
          omega
  · rw [if_neg hmore]
    exact .pure h.confined

end Mias

/-! ### The loops -/

/-- **The read loops make progress** in every run whose READ BINARY commands end, where each one that is answered
`9000` has data for the loop variable, of 8 bits for certificates and of 16 bits elsewhere, and no more than the bytes
that are left. -/
theorem reads_progress (T : Transport σ) (channel : UInt8) (hsize : size < 65536) (out : Mem) :
    (∀ s : Linked σ Applet, MF.Open channel s.obj →
      (∀ x s', Reaches (MF.readTurn T size) (0, out) s x s' → x.1 < size →
        Ends T s'.se.card (MF.readAt channel size x.1) ∧
        AnswersFit T 65536 (size - x.1) s'.se.card (MF.readAt channel size x.1)) →
      Progresses size out (MF.readTurn T size) (0, out) s Prod.snd Prod.snd) ∧
    (∀ width base (s : Linked σ Mias), Mias.Ready channel s.obj →
      (∀ x s', Reaches (Mias.chunkTurn T width size) ⟨0, base, out⟩ s x s' → x.i < size →
        Ends T s'.se.card (Mias.chunkAt channel size x) ∧
        AnswersFit T width (size - x.i) s'.se.card (Mias.chunkAt channel size x)) →
      Progresses size out (Mias.chunkTurn T width size) ⟨0, base, out⟩ s Mias.Cursor.out id) := by
  constructor
  · intro s hopen hfit
    have hstart : MF.Open channel s.obj ∧ Advanced size out s.se s.se 0 out := ⟨hopen, .start size out s.se⟩
    have hturn := fun x s' (hreach : Reaches (MF.readTurn T size) (0, out) s x s')
        (hinv : MF.Open channel s'.obj ∧ Advanced size out s.se s'.se x.1 x.2) =>
      MF.readTurn_lowers hsize hinv.1 hinv.2 (fun hmore => (hfit x s' hreach hmore).1)
        fun hmore => (hfit x s' hreach hmore).2
    exact ⟨fun x s' hreach => (Reaches.invariant hturn hstart hreach).2.confined, .loop hturn hstart⟩
  · intro width base s hready hfit
    have hstart : Mias.Ready channel s.obj ∧ Advanced size out s.se s.se 0 out := ⟨hready, .start size out s.se⟩
    have hturn := fun x s' (hreach : Reaches (Mias.chunkTurn T width size) ⟨0, base, out⟩ s x s')
        (hinv : Mias.Ready channel s'.obj ∧ Advanced size out s.se s'.se x.i x.out) =>
      Mias.chunkTurn_lowers hsize hinv.1 hinv.2 (fun hmore => (hfit x s' hreach hmore).1)
        fun hmore => (hfit x s' hreach hmore).2
    exact ⟨fun x s' hreach => (Reaches.invariant hturn hstart hreach).2.confined, .loop hturn hstart⟩

/-- A card that answers everything with one byte. -/
def oneByteCard : Transport Nat := fun card _ => (some [0xAA, 0x90, 0x00], card)

theorem oneByteCard_ends (card : Nat) (apdu : List UInt8) : Ends oneByteCard card apdu :=
  ⟨some [0xAA, 0x90, 0x00], card, .final rfl (by decide) (by decide)⟩

theorem oneByteCard_fits {width left : Nat} (hwidth : 1 < width) (hleft : 0 < left) (card : Nat) (apdu : List UInt8) :
    AnswersFit oneByteCard width left card apdu := by
  intro answer card' hsettles _
  have hanswer : answer = [0xAA, 0x90, 0x00] := by
    cases hsettles with
    | final h => exact (Option.some.inj (Prod.mk.inj h).1).symm
    | resend h => exact absurd (Prod.mk.inj h).1 (by simp)
    | fetch h => exact absurd (Prod.mk.inj h).1 (by simp)
  rw [hanswer]
  show 1 % width ≠ 0 ∧ 1 ≤ left
  rw [Nat.mod_eq_of_lt hwidth]
  omega

/-- Three bytes, one by one. -/
theorem reads_progress_bytewise :
    Progresses 3 Mem.zero (MF.readTurn oneByteCard 3) (0, Mem.zero) ⟨.create 0 .zero, Mias.selectedMias.applet⟩ Prod.snd
      Prod.snd ∧
    Progresses 3 Mem.zero (Mias.chunkTurn oneByteCard 256 3) ⟨0, 0, Mem.zero⟩ ⟨.create 0 .zero, Mias.selectedMias⟩
      Mias.Cursor.out id ∧
    Progresses 3 Mem.zero (Mias.chunkTurn oneByteCard 65536 3) ⟨0, 20, Mem.zero⟩ ⟨.create 0 .zero, Mias.selectedMias⟩
      Mias.Cursor.out id := by
  have hall := reads_progress oneByteCard 0 (by decide : 3 < 65536) Mem.zero
  refine ⟨hall.1 _ ⟨rfl, rfl, rfl⟩ fun x s' _ hmore => ?_, hall.2 256 0 _ Mias.selectedMias_ready
    fun x s' _ hmore => ?_,
    hall.2 65536 20 _ Mias.selectedMias_ready fun x s' _ hmore => ?_⟩
  · exact ⟨oneByteCard_ends _ _, oneByteCard_fits (by decide) (by omega) _ _⟩
  · exact ⟨oneByteCard_ends _ _, oneByteCard_fits (by decide) (by omega) _ _⟩
  · exact ⟨oneByteCard_ends _ _, oneByteCard_fits (by decide) (by omega) _ _⟩

/-- A card that answers `9000` without data: the loop asks for the same byte for ever. -/
theorem empty_answers_stall :
    ¬Progresses 1 Mem.zero (Mias.chunkTurn Mias.emptyCard 256 1) ⟨0, 0, Mem.zero⟩ ⟨.create 0 .zero, Mias.selectedMias⟩
      Mias.Cursor.out id := by
  intro hprogresses
  obtain ⟨value, s', hevals, _⟩ := hprogresses.ends
  have hblocks : Blocks (loop (Mias.chunkTurn Mias.emptyCard 256 1) ⟨0, 0, Mem.zero⟩)
      ⟨.create 0 .zero, Mias.selectedMias⟩ := by
    apply Blocks.loop
    refine .forever (fun x s => x = ⟨0, 0, Mem.zero⟩ ∧ Mias.Ready 0 s.obj) ⟨rfl, Mias.selectedMias_ready⟩ ?_
    rintro _ s ⟨rfl, hready⟩
    have hread : Concludes Mias.emptyCard s.se.card (Mias.readApdu 0 0 (lowByte (Mias.chunkLen 1 0)))
        (some [0x90, 0x00])
        s.se.card := .final rfl (by decide) (by decide)
    obtain ⟨s₁, heval, hobj, hafter⟩ := Mias.okReadBinary_concludes hready hread
    rw [← hobj] at hready
    refine ⟨⟨0, 0, Mem.zero⟩, s₁, ?_, rfl, hready⟩
    have hresponse : Evals Mias.response s₁ [] s₁ := .of_eq (Mias.response_done hready.isSelected (hafter.holds _ rfl))
    unfold Mias.chunkTurn
    rw [if_pos (by decide)]
    apply heval.bind
    rw [if_pos (by decide)]
    apply hresponse.bind
    refine .of_eq fun fuel => ?_
    rw [pure_apply, Mem.write_nil]
    rfl
  exact hevals.not_blocks hblocks

end TrustOnboard
