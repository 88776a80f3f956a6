import Cmsc421.Run
import Mathlib.Data.List.Forall2
import Mathlib.Data.List.Nodup
import Mathlib.Data.List.TakeDrop

/-!
# Cmsc421.Net.Client

The client of the CS421Net device, `cs421net.c`.

`cs421net_init()` tries one address of the server after the other until it is connected, and
`cs421net_send()` writes a message, again where a signal comes first, and reports whether the
connection has taken all of it.  What the kernel answers is in the labels.
-/

namespace Cmsc421.Net.Client

/-- Where the program is; `left` addresses have not been tried. -/
inductive Pc
  /-- in neither function -/
  | idle
  /-- before `getaddrinfo` -/
  | resolving
  /-- at the head of the loop -/
  | trying (left : Nat)
  /-- before `connect` -/
  | connecting (left : Nat)
  /-- before `close` -/
  | closing (left : Nat)
  /-- after the loop -/
  | freeing
  /-- before `write` -/
  | sending (buffer : List UInt8)
  | exited
deriving DecidableEq

/-- What `write` returns. -/
inductive Written
  | bytes (n : Nat)
  /-- an error, with `errno == EINTR` -/
  | interrupted
  | failed

/-- A call of `cs421net_send()` that has returned. -/
structure Sent where
  socket : Int
  buffer : List UInt8
  ok : Bool

/-- The program and its connections. -/
structure State where
  pc : Pc
  /-- `cs421net_socket` -/
  socket : Int
  /-- the sockets that are open, the last one first -/
  opened : List Int
  /-- those that were connected, the last one first -/
  connected : List Int
  /-- the bytes that a connection has taken -/
  stream : Int → List UInt8
  sent : List Sent

/-- What happens: a call of the program, or an answer of the kernel. -/
inductive Label
  | init
  /-- the number of addresses, or an error -/
  | getaddrinfo (result : Option Nat)
  /-- the descriptor, negative in case of an error -/
  | socket (fd : Int)
  | connect (ret : Int)
  | close
  | freeaddrinfo
  | send (buffer : List UInt8)
  | write (r : Written)

/-- `cs421net_send()` returns. -/
def State.returns (s : State) (buffer : List UInt8) (ok : Bool) : State :=
  { s with pc := .idle, sent := s.sent ++ [⟨s.socket, buffer, ok⟩] }

/-- `write` has put some bytes on the connection. -/
def State.takes (s : State) (bytes : List UInt8) : State :=
  { s with stream := fun fd => if fd = s.socket then s.stream fd ++ bytes else s.stream fd }

/-- One step. -/
def step (s : State) : Label → Option State
  | .init =>
      match s.pc with
      | .idle => some { s with pc := .resolving }
      | _ => none
  | .getaddrinfo result =>
      match s.pc, result with
      | .resolving, none => some { s with pc := .exited }
      | .resolving, some n => some { s with pc := .trying n }
      | _, _ => none
  | .socket fd =>
      match s.pc with
      | .trying (left + 1) =>
          if fd < 0 then some { s with socket := fd, pc := .trying left }
          -- the kernel hands out no descriptor that is in use
          else if fd ∈ s.opened then none
          else some { s with socket := fd, opened := fd :: s.opened, pc := .connecting left }
      | _ => none
  | .connect ret =>
      match s.pc with
      | .connecting left =>
          if 0 ≤ ret then some { s with connected := s.socket :: s.connected, pc := .freeing }
          else some { s with pc := .closing left }
      | _ => none
  | .close =>
      match s.pc with
      | .closing left =>
          some { s with opened := s.opened.erase s.socket, socket := -1, pc := .trying left }
      | _ => none
  | .freeaddrinfo =>
      match s.pc with
      | .trying 0 | .freeing => some { s with pc := if s.socket < 0 then .exited else .idle }
      | _ => none
  | .send buffer =>
      match s.pc with
      | .idle => some (if s.socket < 0 then s.returns buffer false else { s with pc := .sending buffer })
      | _ => none
  | .write r =>
      match s.pc, r with
      | .sending _, .interrupted => some s
      | .sending buffer, .failed => some (s.returns buffer false)
      | .sending buffer, .bytes n =>
          if n ≤ buffer.length then
            some ((s.takes (buffer.take n)).returns buffer (n == buffer.length))
          else none
      | _, _ => none

/-- The program as it starts. -/
def initState : State := ⟨.idle, -1, [], [], fun _ => [], []⟩

/-- The machine of the client. -/
def client : Machine State Label where
  init s := s = initState
  step := step

/-! ## sockets -/

/-- `cs421net_socket` is the socket that was connected last. -/
def State.Holds (s : State) : Prop := 0 ≤ s.socket ∧ s.connected.head? = some s.socket

/-- The sockets that are open, by where the program is. -/
def Sockets (s : State) : Prop :=
  s.opened.Nodup ∧ match s.pc with
  | .idle | .resolving => s.opened = s.connected ∧ (s.Holds ∨ s.socket < 0 ∧ s.connected = [])
  | .trying _ => s.opened = s.connected ∧ (s.Holds ∨ s.socket < 0)
  | .connecting _ | .closing _ => s.opened = s.socket :: s.connected ∧ 0 ≤ s.socket
  | .freeing | .sending _ => s.opened = s.connected ∧ s.Holds
  | .exited => s.opened = s.connected

/-- Each answer of the kernel leads to the clause of where the program goes on. -/
theorem Sockets.step {s s' : State} {l : Label} (h : Sockets s) (hs : Client.step s l = some s') :
    Sockets s' := by
  obtain ⟨pc, socket, opened, connected, stream, sent⟩ := s
  cases l <;> cases pc <;> simp only [Client.step, reduceCtorEq] at hs <;>
    grind [Sockets, State.Holds, State.returns, State.takes]

theorem Sockets.initState : Sockets initState := by simp [Sockets, Client.initState]

theorem sockets_of_run {tr : List (State × Label)} {s : State} (h : client.Run tr s) :
    Sockets s := by
  refine Machine.Run.invariant (I := fun _ s => Sockets s) ?_ ?_ h
  · rintro s rfl
    exact Sockets.initState
  · intro tr s l t hI hs
    exact hI.step hs

/-! ## calls of `cs421net_init()` -/

def Label.isInit : Label → Bool
  | .init => true
  | _ => false

/-- How often the program has called `cs421net_init()`. -/
def inits (tr : List (State × Label)) : Nat := tr.countP (·.2.isInit)

/-- The call that is under way and has connected no socket. -/
def State.underWay (s : State) : Nat :=
  match s.pc with
  | .resolving | .trying _ | .connecting _ | .closing _ => 1
  | _ => 0

theorem connected_step {s s' : State} {l : Label} (hs : step s l = some s') :
    s'.connected.length + s'.underWay ≤
      s.connected.length + s.underWay + if l.isInit then 1 else 0 := by
  obtain ⟨pc, socket, opened, connected, stream, sent⟩ := s
  cases l <;> cases pc <;> simp only [step, reduceCtorEq] at hs <;>
    grind [State.underWay, State.returns, State.takes, Label.isInit]

/-- Each call connects one socket at most. -/
theorem connected_le_of_run {tr : List (State × Label)} {s : State} (h : client.Run tr s) :
    s.connected.length + s.underWay ≤ inits tr := by
  refine Machine.Run.invariant (I := fun tr s => s.connected.length + s.underWay ≤ inits tr) ?_ ?_ h
  · rintro s rfl
    exact Nat.zero_le _
  · intro tr s l t hI hs
    have hstep := connected_step hs
    simp only [inits, List.countP_append, List.countP_singleton] at hI ⊢
    omega

/-- There are never more sockets open than calls of `cs421net_init()`. -/
theorem opened_le_of_run {tr : List (State × Label)} {s : State} (h : client.Run tr s) :
    s.opened.length ≤ inits tr := by
  have hle := connected_le_of_run h
  have hsockets := (sockets_of_run h).2
  have hopened : s.opened.length ≤ s.connected.length + s.underWay := by
    split at hsockets <;> simp_all [State.underWay]
  omega

/-! ## parts of lists -/

section Prefixes

variable {α : Type*} {ps ms : List (List α)}

theorem flatten_length_le (h : List.Forall₂ (· <+: ·) ps ms) :
    ps.flatten.length ≤ ms.flatten.length := by
  induction h with
  | nil => exact Nat.le_refl _
  | cons hp _ ih =>
      simp only [List.flatten_cons, List.length_append]
      exact Nat.add_le_add hp.length_le ih

/-- Prefixes join to the whole only where each is the whole. -/
theorem flatten_eq_iff (h : List.Forall₂ (· <+: ·) ps ms) : ps.flatten = ms.flatten ↔ ps = ms := by
  induction h with
  | nil => simp
  | @cons p m ps ms hp hps ih =>
      refine ⟨fun heq => ?_, fun heq => by rw [heq]⟩
      simp only [List.flatten_cons] at heq
      have hlength := congrArg List.length heq
      simp only [List.length_append] at hlength
      have hle := flatten_length_le hps
      obtain rfl : p = m := hp.eq_of_length_le (by omega)
      rw [ih.mp (List.append_cancel_left heq)]

end Prefixes

/-! ## messages -/

/-- Of the message of a call the connection has taken a part, all of it exactly where the call
returned true or the message is empty. -/
def Taken (part : List UInt8) (c : Sent) : Prop :=
  part <+: c.buffer ∧ (part = c.buffer ↔ c.ok = true ∨ c.buffer = [])

/-- What a connection has taken is a part of each message, in the order of the calls. -/
def Parts (s : State) : Prop :=
  ∀ fd, ∃ parts, List.Forall₂ Taken parts (s.sent.filter (·.socket = fd)) ∧
    s.stream fd = parts.flatten

theorem Taken.take {buffer : List UInt8} {n : Nat} (h : n ≤ buffer.length) (fd : Int) :
    Taken (buffer.take n) ⟨fd, buffer, n == buffer.length⟩ := by
  refine ⟨List.take_prefix _ _, ?_⟩
  simp only [List.take_eq_self_iff, beq_iff_eq]
  constructor
  · intro hle
    exact .inl (Nat.le_antisymm h hle)
  · rintro (rfl | rfl)
    · exact Nat.le_refl _
    · exact Nat.zero_le _

theorem Taken.nothing (fd : Int) (buffer : List UInt8) : Taken [] ⟨fd, buffer, false⟩ :=
  ⟨List.nil_prefix, by simp [eq_comm]⟩

/-- A call returns that has put `part` on the connection. -/
theorem Parts.returns {s : State} (h : Parts s) {part buffer : List UInt8} {ok : Bool}
    (hpart : Taken part ⟨s.socket, buffer, ok⟩) : Parts ((s.takes part).returns buffer ok) := by
  intro fd
  obtain ⟨parts, hparts, hstream⟩ := h fd
  by_cases hfd : fd = s.socket
  · subst hfd
    refine ⟨parts ++ [part], ?_, ?_⟩
    · simpa [State.returns, State.takes, List.filter_append] using
        List.rel_append hparts (.cons hpart .nil)
    · simp [State.returns, State.takes, hstream]
  · refine ⟨parts, ?_, ?_⟩
    · simpa [State.returns, State.takes, List.filter_append, Ne.symm hfd] using hparts
    · simpa [State.returns, State.takes, hfd] using hstream

/-- Where no call returns, neither the connections nor the calls change. -/
theorem step_keeps {s s' : State} {l : Label} (hs : step s l = some s')
    (hsend : ∀ buffer, l ≠ .send buffer) (hwrite : ∀ r, l ≠ .write r) :
    s'.stream = s.stream ∧ s'.sent = s.sent := by
  cases l with
  | send buffer => exact absurd rfl (hsend buffer)
  | write r => exact absurd rfl (hwrite r)
  | _ =>
      simp only [step] at hs
      grind

theorem Parts.step {s s' : State} {l : Label} (h : Parts s) (hs : Client.step s l = some s') :
    Parts s' := by
  have hkeep (hkept : s'.stream = s.stream ∧ s'.sent = s.sent) : Parts s' := by
    simpa [Parts, hkept.1, hkept.2] using h
  -- a call that returns without a byte puts the empty part on the connection
  have hnothing (buffer : List UInt8) : Parts (s.returns buffer false) := by
    simpa [State.takes, State.returns, Parts] using h.returns (Taken.nothing s.socket buffer)
  cases l with
  | send buffer =>
      simp only [Client.step] at hs
      split at hs
      · split at hs
        · cases hs
          exact hnothing buffer
        · cases hs
          exact hkeep ⟨rfl, rfl⟩
      · cases hs
  | write r =>
      simp only [Client.step] at hs
      split at hs
      · cases hs
        exact hkeep ⟨rfl, rfl⟩
      · cases hs
        exact hnothing _
      · split at hs
        next hle =>
          cases hs
          exact h.returns (Taken.take hle s.socket)
        · cases hs
      · cases hs
  | _ => exact hkeep (step_keeps hs (by simp) (by simp))

theorem parts_of_run {tr : List (State × Label)} {s : State} (h : client.Run tr s) : Parts s := by
  refine Machine.Run.invariant (I := fun _ s => Parts s) ?_ ?_ h
  · rintro s rfl fd
    exact ⟨[], .nil, rfl⟩
  · intro tr s l t hI hs
    exact hI.step hs

/-- The messages for a connection, one after the other. -/
def State.messages (s : State) (fd : Int) : List UInt8 :=
  ((s.sent.filter (·.socket = fd)).map (·.buffer)).flatten

theorem Taken.prefixes {parts : List (List UInt8)} {cs : List Sent}
    (h : List.Forall₂ Taken parts cs) : List.Forall₂ (· <+: ·) parts (cs.map (·.buffer)) := by
  rw [List.forall₂_map_right_iff]
  exact h.imp fun _ _ hc => hc.1

theorem Taken.eq_map_iff {parts : List (List UInt8)} {cs : List Sent}
    (h : List.Forall₂ Taken parts cs) :
    parts = cs.map (·.buffer) ↔ ∀ c ∈ cs, c.ok = true ∨ c.buffer = [] := by
  induction h with
  | nil => simp
  | cons hc _ ih => simp [hc.2, ih]

/-- A connection has taken the messages for it, and nothing else, exactly where each call
returned true or had nothing to write. -/
theorem Parts.stream_eq_iff {s : State} (h : Parts s) (fd : Int) :
    s.stream fd = s.messages fd ↔ ∀ c ∈ s.sent, c.socket = fd → c.ok = true ∨ c.buffer = [] := by
  obtain ⟨parts, hparts, hstream⟩ := h fd
  rw [hstream, State.messages, flatten_eq_iff (Taken.prefixes hparts), Taken.eq_map_iff hparts]
  simp

/-- **The client**: there are never more sockets open than calls of `cs421net_init()`, and
outside of it those that are open are those that it connected, the last of which is the one in
use.  A connection has taken a part of each message for it, in the order of the calls and none
twice, and it has taken the messages and nothing else exactly where each call returned true or
had nothing to write. -/
theorem client_of_run {tr : List (State × Label)} {s : State} (h : client.Run tr s) :
    s.opened.Nodup ∧ s.opened.length ≤ inits tr ∧
      (s.pc = .idle → s.opened = s.connected ∧
        (s.connected.head? = some s.socket ∨ s.socket < 0 ∧ s.connected = [])) ∧
      (s.pc = .exited → s.opened = s.connected) ∧
      ∀ fd, (∃ parts, List.Forall₂ (· <+: ·) parts ((s.sent.filter (·.socket = fd)).map (·.buffer)) ∧
          s.stream fd = parts.flatten) ∧
        (s.stream fd = s.messages fd ↔
          ∀ c ∈ s.sent, c.socket = fd → c.ok = true ∨ c.buffer = []) := by
  obtain ⟨hnodup, hopened⟩ := sockets_of_run h
  refine ⟨hnodup, opened_le_of_run h, fun hpc => ?_, fun hpc => ?_, fun fd => ⟨?_, ?_⟩⟩
  · rw [hpc] at hopened
    exact ⟨hopened.1, hopened.2.imp_left (·.2)⟩
  · rw [hpc] at hopened
    exact hopened
  · obtain ⟨parts, hparts, hstream⟩ := parts_of_run h fd
    exact ⟨parts, Taken.prefixes hparts, hstream⟩
  · exact (parts_of_run h).stream_eq_iff fd

/-- The second address answers, a signal comes before the first `write`, and that takes one byte
of two: the connection holds the messages less that byte. -/
def shortWrite : List Label :=
  [.init, .getaddrinfo (some 2), .socket 3, .connect (-1), .close, .socket 3, .connect 0,
    .freeaddrinfo, .send [1, 2], .write .interrupted, .write (.bytes 1), .send [3], .write (.bytes 1)]

theorem client_of_run_shortWrite :
    ∃ s : State, s.stream 3 = [1, 3] ∧ s.messages 3 = [1, 2, 3] ∧
      s.opened.length ≤ inits (client.trace initState shortWrite) ∧
      ¬ ∀ c ∈ s.sent, c.socket = 3 → c.ok = true ∨ c.buffer = [] := by
  obtain ⟨s, hrun, hs⟩ := Machine.exists_run_of_exec (M := client) rfl shortWrite
    (b := fun s => decide (s.stream 3 = [1, 3] ∧ s.messages 3 = [1, 2, 3])) (by decide +kernel)
  obtain ⟨hstream, hmessages⟩ := of_decide_eq_true hs
  obtain ⟨-, hle, -, -, htaken⟩ := client_of_run hrun
  refine ⟨s, hstream, hmessages, hle, fun hall => ?_⟩
  have heq := (htaken 3).2.mpr hall
  rw [hstream, hmessages] at heq
  exact absurd heq (by decide)

end Cmsc421.Net.Client
