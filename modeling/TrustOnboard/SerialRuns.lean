import Mathlib
import TrustOnboard.ExecRefinement
import TrustOnboard.HandleSlot
import TrustOnboard.SerialModel

/-! Runs of calls on a port, whatever the operating system does: what goes out and comes in, and how many descriptors are
left open. -/

namespace TrustOnboard

open Exec HandleSlot

/-- No call moves more than it is asked for. What was given to ports and taken from them is kept track of. -/
structure Posix.Honest {ε : Type} (posix : Posix ε) (given taken : ε → List UInt8) : Prop where
  opens : ∀ device env, given (posix.openPort device env).2 = given env ∧ taken (posix.openPort device env).2 = taken env
  configures : ∀ fd speed env, given (posix.configure fd speed env) = given env ∧
    taken (posix.configure fd speed env) = taken env
  closes : ∀ fd env, given (posix.closePort fd env) = given env ∧ taken (posix.closePort fd env) = taken env
  writes : ∀ fd data env, taken (posix.write fd data env).2 = taken env ∧
    match (posix.write fd data env).1 with
    | none => given (posix.write fd data env).2 = given env
    | some count => count ≤ data.length ∧ given (posix.write fd data env).2 = given env ++ data.take count
  reads : ∀ fd n env, given (posix.read fd n env).2 = given env ∧
    match (posix.read fd n env).1 with
    | none => taken (posix.read fd n env).2 = taken env
    | some bytes => bytes.length ≤ n ∧ taken (posix.read fd n env).2 = taken env ++ bytes

/-- The descriptors of the port that are open: a new one is opened, and closing closes one. -/
structure Posix.Tracks {ε : Type} (posix : Posix ε) (live : ε → Finset Nat) : Prop where
  opens : ∀ device env, match (posix.openPort device env).1 with
    | none => live (posix.openPort device env).2 = live env
    | some fd => fd ∉ live env ∧ live (posix.openPort device env).2 = insert fd (live env)
  configures : ∀ fd speed env, live (posix.configure fd speed env) = live env
  closes : ∀ fd env, live (posix.closePort fd env) = (live env).erase fd
  writes : ∀ fd data env, live (posix.write fd data env).2 = live env
  reads : ∀ fd n env, live (posix.read fd n env).2 = live env

namespace LSerial

/-- The calls of the interface `Serial`. -/
inductive Call where
  | start
  | stop
  | send (data : List UInt8)
  | recv (toRead : Nat)

/-- What a call returns, and what `recv` has stored. -/
structure Returned where
  ok : Bool
  stored : List UInt8

section Calls

variable {ε : Type} (posix : Posix ε)

def Call.run : Call → Exec (LSerial ε) Returned
  | .start => do
      let ok ← LSerial.start posix
      return ⟨ok, []⟩
  | .stop => do
      let ok ← LSerial.stop posix
      return ⟨ok, []⟩
  | .send data => do
      let ok ← LSerial.send posix data
      return ⟨ok, []⟩
  | .recv toRead => do
      let received ← LSerial.recv posix toRead
      return ⟨received.1, received.2⟩

end Calls

/-- What a call has moved out and in, by what it returned: of the data of a `send` a part from the beginning, and for a
`recv` what it has stored, no more than it was to read. Where it returns true it is all. -/
inductive Move : Call → Returned → List UInt8 → List UInt8 → Prop
  | start {ok : Bool} : Move .start ⟨ok, []⟩ [] []
  | stop {ok : Bool} : Move .stop ⟨ok, []⟩ [] []
  | send {data part : List UInt8} {ok : Bool} (hpart : part <+: data) (hwhole : ok = true → part = data) :
      Move (.send data) ⟨ok, []⟩ part []
  | recv {stored : List UInt8} {toRead : Nat} {ok : Bool} (hle : stored.length ≤ toRead)
      (hwhole : ok = true → stored.length = toRead) : Move (.recv toRead) ⟨ok, stored⟩ [] stored

/-- Calls one after the other. -/
inductive Moves : List Call → List Returned → List UInt8 → List UInt8 → Prop
  | nil : Moves [] [] [] []
  | cons {call : Call} {result : Returned} {calls : List Call} {results : List Returned} {out inn out' inn' : List UInt8}
      (hcall : Move call result out inn) (hrest : Moves calls results out' inn') :
      Moves (call :: calls) (result :: results) (out ++ out') (inn ++ inn')

/-! ### What goes out and comes in -/

section Honest

variable {ε : Type} {posix : Posix ε} {given taken : ε → List UInt8} {s : LSerial ε}

theorem syscall_bind {α β : Type} {call : ε → α × ε} {next : α → Exec (LSerial ε) β} {post : β → LSerial ε → Prop}
    {cut : LSerial ε → Prop} (h : Meets (next (call s.env).1) { s with env := (call s.env).2 } post cut) :
    Meets (syscall call >>= next) s post cut := h

variable (h : posix.Honest given taken)

include h

/-- `send` gives the device a part of the data, from the beginning, at every moment; all of them where it returns true. -/
theorem send_meets (data : List UInt8) :
    Meets (send posix data) s
      (fun ok s' => taken s'.env = taken s.env ∧ ∃ part, part <+: data ∧ (ok = true → part = data) ∧
        given s'.env = given s.env ++ part)
      (fun s' => taken s'.env = taken s.env ∧ ∃ part, part <+: data ∧ given s'.env = given s.env ++ part) := by
  have hnothing : given s.env = given s.env ++ [] := (List.append_nil _).symm
  apply Meets.gets_bind
  cases s.m_uart with
  | none => exact .pure ⟨rfl, [], List.nil_prefix, fun hok => absurd hok Bool.false_ne_true, hnothing⟩
  | some fd =>
      apply Meets.loop fun i s' => i ≤ data.length ∧ taken s'.env = taken s.env ∧
        given s'.env = given s.env ++ data.take i
      · rintro i s' ⟨_, htaken, hgiven⟩
        exact ⟨htaken, data.take i, List.take_prefix i data, hgiven⟩
      · rintro i s' ⟨hi, htaken, hgiven⟩
        obtain ⟨hsame, hwrites⟩ := h.writes fd (data.drop i) s'.env
        unfold sendTurn
        by_cases hmore : i < data.length
        · rw [if_pos hmore]
          apply syscall_bind
          cases hcount : (posix.write fd (data.drop i) s'.env).1 with
          | none =>
              rw [hcount] at hwrites
              exact .pure ⟨hsame.trans htaken, data.take i, List.take_prefix i data, fun hok =>
                absurd hok Bool.false_ne_true,
                hwrites.trans hgiven⟩
          | some count =>
              rw [hcount] at hwrites
              obtain ⟨hle, hmoved⟩ := hwrites
              rw [List.length_drop] at hle
              refine .pure ⟨by omega, hsame.trans htaken, ?_⟩
              rw [hmoved, hgiven, List.append_assoc, ← List.take_add]
        · rw [if_neg hmore]
          have hall : data.take i = data := List.take_of_length_le (Nat.le_of_not_lt hmore)
          exact .pure ⟨htaken, data.take i, List.take_prefix i data, fun _ => hall, hgiven⟩
      · exact ⟨Nat.zero_le _, rfl, hnothing⟩

/-- `recv` has stored what was read, in order, at every moment; as much as it was to read where it returns true. -/
theorem recv_meets (toRead : Nat) :
    Meets (recv posix toRead) s
      (fun received s' => given s'.env = given s.env ∧ received.2.length ≤ toRead ∧
        (received.1 = true → received.2.length = toRead) ∧ taken s'.env = taken s.env ++ received.2)
      (fun s' => given s'.env = given s.env ∧ ∃ bytes, bytes.length ≤ toRead ∧ taken s'.env = taken s.env ++ bytes) := by
  have hnothing : taken s.env = taken s.env ++ [] := (List.append_nil _).symm
  apply Meets.gets_bind
  cases s.m_uart with
  | none => exact .pure ⟨rfl, Nat.zero_le _, fun hok => absurd hok Bool.false_ne_true, hnothing⟩
  | some fd =>
      apply Meets.loop fun data s' => data.length ≤ toRead ∧ given s'.env = given s.env ∧
        taken s'.env = taken s.env ++ data
      · rintro data s' ⟨hle, hgiven, htaken⟩
        exact ⟨hgiven, data, hle, htaken⟩
      · rintro data s' ⟨hle, hgiven, htaken⟩
        obtain ⟨hsame, hreads⟩ := h.reads fd (toRead - data.length) s'.env
        unfold recvTurn
        by_cases hmore : data.length < toRead
        · rw [if_pos hmore]
          apply syscall_bind
          cases hbytes : (posix.read fd (toRead - data.length) s'.env).1 with
          | none =>
              rw [hbytes] at hreads
              exact .pure ⟨hsame.trans hgiven, hle, fun hok => absurd hok Bool.false_ne_true, hreads.trans htaken⟩
          | some bytes =>
              rw [hbytes] at hreads
              obtain ⟨hfew, hmoved⟩ := hreads
              refine .pure ⟨?_, hsame.trans hgiven, ?_⟩
              · rw [List.length_append]
                omega
              · rw [hmoved, htaken, List.append_assoc]
        · rw [if_neg hmore]
          exact .pure ⟨hgiven, hle, fun _ => Nat.le_antisymm hle (Nat.le_of_not_lt hmore), htaken⟩
      · exact ⟨Nat.zero_le _, rfl, hnothing⟩

omit h in
theorem start_keeps {α : Type} (part : ε → α) (hopens : ∀ device env, part (posix.openPort device env).2 = part env)
    (hconfigures : ∀ fd speed env, part (posix.configure fd speed env) = part env)
    (hcloses : ∀ fd env, part (posix.closePort fd env) = part env) :
    Meets (start posix) s (fun _ s' => part s'.env = part s.env) (fun s' => part s'.env = part s.env) := by
  apply Meets.gets_bind
  apply syscall_bind
  apply Meets.modify_bind
  have hopened := hopens s.device s.env
  cases (posix.openPort s.device s.env).1 with
  | none => exact .pure hopened
  | some fd =>
      apply Meets.gets_bind
      cases speeds.lookup s.baudrate with
      | none =>
          apply syscall_bind
          apply Meets.modify_bind
          exact .pure ((hcloses fd _).trans hopened)
      | some speed =>
          apply syscall_bind
          exact .pure ((hconfigures fd speed _).trans hopened)

/-- One call. -/
theorem call_moves (call : Call) :
    Meets (call.run posix) s (fun result s' => ∃ out inn, Move call result out inn ∧ given s'.env = given s.env ++ out ∧
      taken s'.env = taken s.env ++ inn) (fun _ => True) := by
  have hkept : ∀ {data : List UInt8}, data = data ++ [] := fun {data} => (List.append_nil data).symm
  cases call with
  | start =>
      have hstart := (start_keeps (s := s) (fun env => (given env, taken env))
        (fun device env => Prod.ext (h.opens device env).1 (h.opens device env).2)
        (fun fd speed env => Prod.ext (h.configures fd speed env).1 (h.configures fd speed env).2)
        (fun fd env => Prod.ext (h.closes fd env).1 (h.closes fd env).2)).mono (fun _ _ hpost => hpost)
          (fun _ _ => True.intro)
      refine hstart.bind fun ok s' hsame => .pure ⟨[], [], .start, ?_, ?_⟩
      · rw [List.append_nil]
        exact congrArg Prod.fst hsame
      · rw [List.append_nil]
        exact congrArg Prod.snd hsame
  | stop =>
      have hstop : Meets (stop posix) s (fun _ s' => given s'.env = given s.env ∧ taken s'.env = taken s.env)
          (fun _ => True) := by
        apply Meets.gets_bind
        cases s.m_uart with
        | none => exact .pure ⟨rfl, rfl⟩
        | some fd =>
            apply syscall_bind
            exact .pure (h.closes fd s.env)
      refine hstop.bind fun ok s' hsame => .pure ⟨[], [], .stop, ?_, ?_⟩
      · rw [List.append_nil]
        exact hsame.1
      · rw [List.append_nil]
        exact hsame.2
  | send data =>
      have hsend := (send_meets (s := s) h data).mono (fun _ _ hpost => hpost) (fun _ _ => True.intro)
      refine hsend.bind ?_
      rintro ok s' ⟨htaken, part, hpart, hwhole, hgiven⟩
      exact .pure ⟨part, [], .send hpart hwhole, hgiven, htaken.trans hkept⟩
  | recv toRead =>
      have hrecv := (recv_meets (s := s) h toRead).mono (fun _ _ hpost => hpost) (fun _ _ => True.intro)
      refine hrecv.bind ?_
      rintro ⟨ok, stored⟩ s' ⟨hgiven, hle, hwhole, htaken⟩
      exact .pure ⟨[], stored, .recv hle hwhole, hgiven.trans hkept, htaken⟩

/-- **Nothing is moved twice, out of order or left out in the middle**, whatever the operating system does, over any calls
that return. -/
theorem calls_move (calls : List Call) :
    Meets (runAll (Call.run posix) calls) s (fun results s' => ∃ out inn, Moves calls results out inn ∧
      given s'.env = given s.env ++ out ∧ taken s'.env = taken s.env ++ inn) (fun _ => True) := by
  induction calls generalizing s with
  | nil => exact .pure ⟨[], [], .nil, (List.append_nil _).symm, (List.append_nil _).symm⟩
  | cons call calls ih =>
      refine (call_moves h call).bind ?_
      rintro result s₁ ⟨out, inn, hmove, hgiven, htaken⟩
      refine ih.bind ?_
      rintro results s₂ ⟨out', inn', hmoves, hgiven', htaken'⟩
      refine .pure ⟨out ++ out', inn ++ inn', .cons hmove hmoves, ?_, ?_⟩
      · rw [hgiven', hgiven, List.append_assoc]
      · rw [htaken', htaken, List.append_assoc]

end Honest

/-! ### Descriptors -/

/-- What a call does with the descriptor of the port. -/
def Call.kinds : Call → Returned → List Kind
  | .start, result => [if result.ok then .acquire else .forget]
  | .stop, _ => [.release]
  | .send _, _ => []
  | .recv _, _ => []

section Tracks

variable {ε : Type} {posix : Posix ε} {live : ε → Finset Nat} {s : LSerial ε}

/-- The open descriptors, and the one that the port keeps. -/
def slot (live : ε → Finset Nat) (s : LSerial ε) : Slot Nat := ⟨live s.env, s.m_uart⟩

/-- The slot is not touched. -/
def Untouched (live : ε → Finset Nat) (s s' : LSerial ε) : Prop := slot live s' = slot live s

instance : IsPreorder (LSerial ε) (Untouched live) where
  refl _ := rfl
  trans _ _ _ h h' := h'.trans h

variable (h : posix.Tracks live)

include h

theorem start_slot : Meets (start posix) s
    (fun ok s' => Step (slot live s) (if ok then .acquire else .forget) (slot live s')) (fun _ => True) := by
  have hopens := h.opens s.device s.env
  apply Meets.gets_bind
  apply syscall_bind
  apply Meets.modify_bind
  cases hport : (posix.openPort s.device s.env).1 with
  | none =>
      rw [hport] at hopens
      refine .pure ?_
      simp only [slot, hopens, Bool.false_eq_true, if_false]
      exact .forget
  | some fd =>
      rw [hport] at hopens
      obtain ⟨hfresh, hlive⟩ := hopens
      apply Meets.gets_bind
      cases speeds.lookup s.baudrate with
      | none =>
          apply syscall_bind
          apply Meets.modify_bind
          refine .pure ?_
          simp only [slot, h.closes, hlive, Finset.erase_insert hfresh, Bool.false_eq_true, if_false]
          exact .forget
      | some speed =>
          apply syscall_bind
          refine .pure ?_
          simp only [slot, h.configures, hlive, if_true]
          exact .acquire hfresh

theorem stop_slot : Meets (stop posix) s (fun _ s' => Step (slot live s) .release (slot live s')) (fun _ => True) := by
  apply Meets.gets_bind
  cases hport : s.m_uart with
  | none =>
      refine .pure ?_
      have hsame := Step.release (s := slot live s)
      simpa [slot, hport] using hsame
  | some fd =>
      apply syscall_bind
      refine .pure ?_
      have hclosed := Step.release (s := slot live s)
      simpa [slot, hport, h.closes] using hclosed

theorem send_untouched (data : List UInt8) : Stays (Untouched live) (send posix data) := by
  refine Stays.bind (.gets _) fun port => ?_
  cases port with
  | none => exact .pure false
  | some fd =>
      apply Stays.loop
      intro i
      have hwrite : Stays (Untouched live) (syscall (posix.write fd (data.drop i))) := fun _ s => by
        simp only [Untouched, slot, syscall, h.writes]
      refine .ite (hwrite.bind fun count => ?_) (.pure _)
      cases count <;> exact .pure _

theorem recv_untouched (toRead : Nat) : Stays (Untouched live) (recv posix toRead) := by
  refine Stays.bind (.gets _) fun port => ?_
  cases port with
  | none => exact .pure _
  | some fd =>
      apply Stays.loop
      intro data
      have hread : Stays (Untouched live) (syscall (posix.read fd (toRead - data.length))) := fun _ s => by
        simp only [Untouched, slot, syscall, h.reads]
      refine .ite (hread.bind fun bytes => ?_) (.pure _)
      cases bytes <;> exact .pure _

/-- One call. -/
theorem call_slot (call : Call) : Meets (call.run posix) s
    (fun result s' => HandleSlot.Run (slot live s) (call.kinds result) (slot live s')) (fun _ => True) := by
  cases call with
  | start => exact (start_slot h).bind fun ok s' hstep => .pure (.cons hstep .nil)
  | stop => exact (stop_slot h).bind fun ok s' hstep => .pure (.cons hstep .nil)
  | send data =>
      refine (((send_untouched h data).meets s).mono (fun _ _ hsame => hsame) fun _ _ => True.intro).bind ?_
      rintro ok s' hsame
      refine .pure ?_
      rw [hsame]
      exact .nil
  | recv toRead =>
      refine (((recv_untouched h toRead).meets s).mono (fun _ _ hsame => hsame) fun _ _ => True.intro).bind ?_
      rintro received s' hsame
      refine .pure ?_
      rw [hsame]
      exact .nil

theorem calls_slot (calls : List Call) : Meets (runAll (Call.run posix) calls) s
    (fun results s' => HandleSlot.Run (slot live s) (kindsOf Call.kinds calls results) (slot live s')) (fun _ => True) := by
  induction calls generalizing s with
  | nil => exact .pure .nil
  | cons call calls ih =>
      refine (call_slot h call).bind fun result s₁ hfirst => ih.bind fun results s₂ hrest => .pure ?_
      exact hfirst.append hrest

/-- **The descriptors that a port leaves open**: over any calls that return, those that were open before, which stay
open, the one that it can still close, and one for each `start` that follows a `start` that returned true with no `stop`
in between. None is left behind exactly if there is no such `start`. -/
theorem descriptors_left (env : ε) (device : Option (List UInt8)) (baudrate : Int) (calls : List Call) :
    Meets (runAll (Call.run posix) calls) (create env device baudrate) (fun results s' =>
      live env ⊆ live s'.env ∧
        (live s'.env).card = (live env).card + lost false (kindsOf Call.kinds calls results) + (slot live s').holds.toNat ∧
        ((live s'.env).card = (live env).card + (slot live s').holds.toNat ↔
          ¬[Kind.acquire, .acquire] <:+: kindsOf Call.kinds calls results ∧
            ¬[Kind.acquire, .forget] <:+: kindsOf Call.kinds calls results))
      (fun _ => True) := by
  refine (calls_slot h calls).mono ?_ fun _ _ => True.intro
  intro results s' hrun
  have hcard : (live s'.env).card + 0 =
      (live env).card + lost false (kindsOf Call.kinds calls results) + (slot live s').holds.toNat := hrun.card
  have hspares := hrun.spares (Slot.spares_live (s := slot live (create env device baudrate)) rfl)
  refine ⟨hspares.live, hcard, ?_⟩
  rw [← lost_eq_zero_iff]
  omega

end Tracks

/-! ### An operating system -/

/-- Descriptors, and a device that is given bytes and has some to take. -/
structure Device where
  live : Finset Nat
  given : List UInt8
  taken : List UInt8
  ahead : List UInt8

/-- It moves two bytes at a time, and a `read` fails when there is nothing to take. -/
def twoByTwo : Posix Device where
  openPort device env := (device.map fun _ => env.live.sup id + 1,
    { env with live := if device.isSome then insert (env.live.sup id + 1) env.live else env.live })
  configure _ _ env := env
  closePort fd env := { env with live := env.live.erase fd }
  write _ data env := (some (min data.length 2), { env with given := env.given ++ data.take (min data.length 2) })
  read _ n env :=
    if env.ahead = [] then (none, env)
    else
      (some (env.ahead.take (min n 2)),
        { env with taken := env.taken ++ env.ahead.take (min n 2), ahead := env.ahead.drop (min n 2) })

theorem twoByTwo_honest : twoByTwo.Honest Device.given Device.taken where
  opens _ _ := ⟨rfl, rfl⟩
  configures _ _ _ := ⟨rfl, rfl⟩
  closes _ _ := ⟨rfl, rfl⟩
  writes _ data _ := ⟨rfl, Nat.min_le_left data.length 2, rfl⟩
  reads _ n env := by
    by_cases hnone : env.ahead = []
    · simp [twoByTwo, hnone]
    · simp [twoByTwo, hnone]

theorem twoByTwo_tracks : twoByTwo.Tracks Device.live where
  opens device env := by
    cases device with
    | none => rfl
    | some name =>
        refine ⟨fun hmem => ?_, rfl⟩
        have hle : id (env.live.sup id + 1) ≤ env.live.sup id := Finset.le_sup hmem
        exact absurd hle (Nat.not_succ_le_self _)
  configures _ _ _ := rfl
  closes _ _ := rfl
  writes _ _ _ := rfl
  reads _ _ env := by
    by_cases hnone : env.ahead = []
    · simp [twoByTwo, hnone]
    · simp [twoByTwo, hnone]

/-- A port of it, before anything is done with it. -/
def closedPort : LSerial Device := create ⟨∅, [], [], [7, 8, 9, 10, 11]⟩ (some (cstr "/dev/ttyUSB0")) 9600

/-- Three bytes go out in two parts, three of five come in, and a `recv` of more than there are fails. -/
theorem calls_move_twoByTwo :
    ∃ results s' out inn, runAll (Call.run twoByTwo) [.start, .send [1, 2, 3], .recv 3, .recv 4] 4 closedPort =
        (.done results, s') ∧
      Moves [.start, .send [1, 2, 3], .recv 3, .recv 4] results out inn ∧ s'.env.given = out ∧ s'.env.taken = inn := by
  have hrun : ∃ results s', runAll (Call.run twoByTwo) [.start, .send [1, 2, 3], .recv 3, .recv 4] 4 closedPort =
      (.done results, s') := ⟨_, _, rfl⟩
  obtain ⟨results, s', hdone⟩ := hrun
  obtain ⟨out, inn, hmoves, hgiven, htaken⟩ := (calls_move twoByTwo_honest _).done hdone
  exact ⟨results, s', out, inn, hdone, hmoves, hgiven, htaken⟩

/-- A port that is started twice leaves one descriptor open, though it is stopped. -/
theorem descriptors_left_twoByTwo :
    ∃ s', runAll (Call.run twoByTwo) [.start, .start, .stop] 1 closedPort =
        (.done [⟨true, []⟩, ⟨true, []⟩, ⟨true, []⟩], s') ∧
      s'.env.live.card = 1 + (slot Device.live s').holds.toNat := by
  have hrun : ∃ s', runAll (Call.run twoByTwo) [.start, .start, .stop] 1 closedPort =
      (.done [⟨true, []⟩, ⟨true, []⟩, ⟨true, []⟩], s') := ⟨_, rfl⟩
  obtain ⟨s', hdone⟩ := hrun
  obtain ⟨_, hcard, _⟩ := (descriptors_left twoByTwo_tracks ⟨∅, [], [], [7, 8, 9, 10, 11]⟩ (some (cstr "/dev/ttyUSB0")) 9600
    [.start, .start, .stop]).done hdone
  exact ⟨s', hdone, hcard⟩

end LSerial

end TrustOnboard
