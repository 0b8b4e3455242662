import Sotabots.Network.Listen
import Sotabots.Machine.Trace
/-!
# The robot and the vision computer over time

The two sides run on their own, and nothing is taken for granted of what lies
between them: a connection may open late or not at all, be accepted in any order,
carry any part of what was written to it and break at any time, and the vision
computer may stop between two of its calls of `send`.  `step` has one move for
each of these, so a list of moves is an interleaving of the two programs over
such a network.
-/

namespace Sotabots.Network

open Java Machine

inductive Call
  | listenBool | listenCoor
  deriving DecidableEq

inductive Answer
  | bool (r : Reply Int)
  | coor (r : Reply JavaString)

def Call.ask : Call → Link → Answer
  | .listenBool, link => .bool (Network.listenBool link)
  | .listenCoor, link => .coor (Network.listenCoor link)

/-- A connection on which these bytes arrive before it is closed or breaks: either
way the read that wants more throws an `IOException`. -/
def carrying (bytes : List UInt8) : Link := ⟨.ok (), .ok bytes⟩

/-- What can become of a connection to which `text` is written. -/
inductive Possible (text : List UInt8) : Link → Prop
  | refused (e : IOException) (stream : Except IOException (List UInt8)) :
      Possible text ⟨.error e, stream⟩
  | noStream (e : IOException) : Possible text ⟨.ok (), .error e⟩
  | part {bytes : List UInt8} (h : bytes <+: text) : Possible text (carrying bytes)

/-- The read blocks: it has come to the end of what has arrived. -/
def Call.wantsMore (call : Call) (bytes : List UInt8) : Bool :=
  match call with
  | .listenBool =>
      match readBoolean bytes with
      | .error .eof => true
      | _ => false
  | .listenCoor =>
      match readUTF bytes with
      | .error .eof => true
      | _ => false

inductive Stage
  | connecting
  | reading
  | returned (answer : Answer)

structure Connection where
  call : Call
  stage : Stage
  arrived : List UInt8
  /-- No more will arrive. -/
  broken : Bool

/-- Both sides at one moment.  A call is known by its place among the calls. -/
structure Exchange where
  /-- What the vision computer has still to send. -/
  program : List PyValue
  /-- The connections that `send` has accepted, with the value of each. -/
  accepted : List (ℕ × PyValue)
  connections : List Connection

def Exchange.start (program : List PyValue) : Exchange := ⟨program, [], []⟩

inductive Move
  | call (call : Call)
  /-- `Connector.open` throws. -/
  | refuse (n : ℕ) (e : IOException)
  /-- `openDataInputStream` throws. -/
  | failStream (n : ℕ) (e : IOException)
  | openStream (n : ℕ)
  /-- The next `send` accepts connection `n` and writes to it. -/
  | accept (n : ℕ)
  /-- The first `k` bytes that were written have arrived. -/
  | arrive (n k : ℕ)
  | disconnect (n : ℕ)
  /-- The read returns or throws. -/
  | finish (n : ℕ)
  /-- The vision computer stops. -/
  | stop
  deriving DecidableEq

def Exchange.change (x : Exchange) (n : ℕ) (f : Connection → Option Connection) :
    Option Exchange :=
  match x.connections[n]? with
  | none => none
  | some c => (f c).map fun c => { x with connections := x.connections.set n c }

/-- `none` where the move is not possible or would block. -/
def Exchange.step (x : Exchange) : Move → Option Exchange
  | .call call => some { x with connections := x.connections ++ [⟨call, .connecting, [], false⟩] }
  | .refuse n e => x.change n fun c =>
      match c.stage with
      | .connecting => some { c with stage := .returned (c.call.ask ⟨.error e, .ok []⟩) }
      | _ => none
  | .failStream n e => x.change n fun c =>
      match c.stage with
      | .connecting => some { c with stage := .returned (c.call.ask ⟨.ok (), .error e⟩) }
      | _ => none
  | .openStream n => x.change n fun c =>
      match c.stage with
      | .connecting => some { c with stage := .reading }
      | _ => none
  | .accept n =>
      match x.program with
      | v :: program =>
          if n < x.connections.length ∧ n ∉ x.accepted.map Prod.fst then
            some { x with program := program, accepted := x.accepted ++ [(n, v)] }
          else none
      | [] => none
  | .arrive n k =>
      match x.accepted.lookup n with
      | some v => x.change n fun c =>
          -- what has arrived before stays
          if c.broken then none else some { c with arrived := v.str.take (max k c.arrived.length) }
      | none => none
  | .disconnect n => x.change n fun c => some { c with broken := true }
  | .finish n => x.change n fun c =>
      match c.stage with
      | .reading =>
          if c.broken ∨ c.call.wantsMore c.arrived = false then
            some { c with stage := .returned (c.call.ask (carrying c.arrived)) }
          else none
      | _ => none
  | .stop => some { x with program := [] }

def Exchange.answer (x : Exchange) (n : ℕ) : Option (Call × Answer) :=
  match x.connections[n]? with
  | some ⟨call, .returned a, _, _⟩ => some (call, a)
  | _ => none

/-! ## Every interleaving -/

def Exchange.Wrote (x : Exchange) (n : ℕ) (text : List UInt8) : Prop :=
  text = [] ∨ ∃ v, (n, v) ∈ x.accepted ∧ text = v.str

structure Connection.Sound (Wrote : List UInt8 → Prop) (c : Connection) : Prop where
  arrived : ∃ text, Wrote text ∧ c.arrived <+: text
  /-- A call returns what it makes of its own connection. -/
  returned : ∀ a, c.stage = .returned a → ∃ text link, Wrote text ∧ Possible text link ∧
    a = c.call.ask link

/-- What holds of the two sides at every moment, `program` being all that the
vision computer is to send. -/
structure Exchange.Sound (program : List PyValue) (x : Exchange) : Prop where
  sent : x.accepted.map Prod.snd ++ x.program <+: program
  once : (x.accepted.map Prod.fst).Nodup
  connections : ∀ (n : ℕ) (c : Connection), x.connections[n]? = some c → c.Sound (x.Wrote n)

theorem Connection.Sound.mono {Wrote Wrote' : List UInt8 → Prop} {c : Connection}
    (h : c.Sound Wrote) (hmono : ∀ text, Wrote text → Wrote' text) : c.Sound Wrote' := by
  constructor
  · obtain ⟨text, htext, hprefix⟩ := h.arrived
    exact ⟨text, hmono text htext, hprefix⟩
  · intro a ha
    obtain ⟨text, link, htext, hlink, hask⟩ := h.returned a ha
    exact ⟨text, link, hmono text htext, hlink, hask⟩

theorem change_eq_some {x y : Exchange} {n : ℕ} {f : Connection → Option Connection}
    (h : x.change n f = some y) :
    ∃ c c', x.connections[n]? = some c ∧ f c = some c' ∧
      y = { x with connections := x.connections.set n c' } := by
  unfold Exchange.change at h
  split at h
  · cases h
  · rename_i c hc
    obtain ⟨c', hc', rfl⟩ := Option.map_eq_some_iff.mp h
    exact ⟨c, c', hc, hc', rfl⟩

theorem getElem?_concat_cases {α : Type*} {l : List α} {m : ℕ} {new c : α}
    (h : (l ++ [new])[m]? = some c) : l[m]? = some c ∨ (m = l.length ∧ c = new) := by
  rw [List.getElem?_append] at h
  split_ifs at h with hlt
  · exact Or.inl h
  · rw [List.getElem?_singleton] at h
    split_ifs at h with hzero
    exact Or.inr ⟨by omega, (Option.some.inj h).symm⟩

theorem getElem?_set_cases {α : Type*} {l : List α} {n m : ℕ} {new c : α}
    (h : (l.set n new)[m]? = some c) : (m = n ∧ c = new) ∨ (m ≠ n ∧ l[m]? = some c) := by
  rw [List.getElem?_set] at h
  split_ifs at h with heq hlt
  · exact Or.inl ⟨heq.symm, (Option.some.inj h).symm⟩
  · exact Or.inr ⟨fun hmn => heq hmn.symm, h⟩

theorem Connection.Sound.answered {Wrote : List UInt8 → Prop} {c : Connection}
    (h : c.Sound Wrote) {text : List UInt8} {link : Link} (htext : Wrote text)
    (hlink : Possible text link) :
    Connection.Sound Wrote { c with stage := .returned (c.call.ask link) } where
  arrived := h.arrived
  returned := by
    intro a ha
    obtain rfl := Stage.returned.inj ha
    exact ⟨text, link, htext, hlink, rfl⟩

theorem Connection.Sound.of_connecting {Wrote : List UInt8 → Prop} {c c' : Connection}
    {stage : Stage} (h : c.Sound Wrote)
    (hstage : ∀ a, stage = .returned a → ∃ text link, Wrote text ∧ Possible text link ∧
      a = c.call.ask link)
    (hc' : (match c.stage with
      | .connecting => some { c with stage := stage }
      | _ => none) = some c') : c'.Sound Wrote := by
  split at hc'
  · obtain rfl := Option.some.inj hc'
    exact ⟨h.arrived, hstage⟩
  · cases hc'

namespace Exchange.Sound

variable {program : List PyValue} {x y : Exchange} {n : ℕ}

theorem change (h : x.Sound program) {f : Connection → Option Connection}
    (hf : ∀ c c', f c = some c' → c.Sound (x.Wrote n) → c'.Sound (x.Wrote n))
    (hy : x.change n f = some y) : y.Sound program := by
  obtain ⟨c, c', hc, hc', rfl⟩ := change_eq_some hy
  refine ⟨h.sent, h.once, ?_⟩
  intro m d hd
  rcases getElem?_set_cases hd with ⟨rfl, rfl⟩ | ⟨-, hm⟩
  · exact hf c _ hc' (h.connections _ c hc)
  · exact h.connections m d hm

theorem calls (h : x.Sound program) (call : Call) :
    Sound program { x with connections := x.connections ++ [⟨call, .connecting, [], false⟩] } := by
  refine ⟨h.sent, h.once, ?_⟩
  intro m c hc
  rcases getElem?_concat_cases hc with hm | ⟨-, rfl⟩
  · exact h.connections m c hm
  · refine ⟨⟨[], Or.inl rfl, List.prefix_rfl⟩, ?_⟩
    intro a ha
    cases ha

theorem accepts (h : x.Sound program) {v : PyValue} {rest : List PyValue}
    (hprogram : x.program = v :: rest) (hnew : n ∉ x.accepted.map Prod.fst) :
    Sound program { x with program := rest, accepted := x.accepted ++ [(n, v)] } := by
  refine ⟨?_, ?_, ?_⟩
  · have hsent := h.sent
    rw [hprogram] at hsent
    simpa using hsent
  · rw [List.map_append, List.nodup_append]
    refine ⟨h.once, List.pairwise_singleton _ _, ?_⟩
    rintro m hm k hk rfl
    have hmn : m = n := List.mem_singleton.mp hk
    rw [hmn] at hm
    exact hnew hm
  · intro m c hc
    refine (h.connections m c hc).mono ?_
    rintro text (hnil | ⟨w, hw, htext⟩)
    · exact Or.inl hnil
    · exact Or.inr ⟨w, List.mem_append_left _ hw, htext⟩

end Exchange.Sound

theorem sound_step {program : List PyValue} (x : Exchange) (m : Move) (y : Exchange)
    (hx : x.Sound program) (h : x.step m = some y) : y.Sound program := by
  cases m with
  | call call =>
      obtain rfl := Option.some.inj h
      exact hx.calls call
  | refuse n e =>
      refine hx.change (fun c c' hc' hc => hc.of_connecting ?_ hc') h
      rintro a ⟨rfl⟩
      exact ⟨[], _, Or.inl rfl, .refused e _, rfl⟩
  | failStream n e =>
      refine hx.change (fun c c' hc' hc => hc.of_connecting ?_ hc') h
      rintro a ⟨rfl⟩
      exact ⟨[], _, Or.inl rfl, .noStream e, rfl⟩
  | openStream n =>
      refine hx.change (fun c c' hc' hc => hc.of_connecting ?_ hc') h
      rintro a ⟨⟩
  | accept n =>
      simp only [Exchange.step] at h
      split at h
      · rename_i v rest hprogram
        split_ifs at h with hguard
        obtain rfl := Option.some.inj h
        exact hx.accepts hprogram hguard.2
      · cases h
  | arrive n k =>
      simp only [Exchange.step] at h
      split at h
      · rename_i v hv
        refine hx.change (fun c c' hc' hc => ?_) h
        split_ifs at hc'
        obtain rfl := Option.some.inj hc'
        obtain ⟨older, newer, hsplit, -⟩ := List.lookup_eq_some_iff.mp hv
        have hmem : (n, v) ∈ x.accepted := by simp [hsplit]
        exact ⟨⟨v.str, Or.inr ⟨v, hmem, rfl⟩, List.take_prefix _ _⟩, hc.returned⟩
      · cases h
  | disconnect n =>
      refine hx.change (fun c c' hc' hc => ?_) h
      obtain rfl := Option.some.inj hc'
      exact ⟨hc.arrived, hc.returned⟩
  | finish n =>
      refine hx.change (fun c c' hc' hc => ?_) h
      split at hc'
      · split_ifs at hc'
        obtain rfl := Option.some.inj hc'
        obtain ⟨text, htext, hprefix⟩ := hc.arrived
        exact hc.answered htext (.part hprefix)
      · cases hc'
  | stop =>
      obtain rfl := Option.some.inj h
      refine ⟨?_, hx.once, hx.connections⟩
      have hfirst : x.accepted.map Prod.snd <+: x.accepted.map Prod.snd ++ x.program :=
        List.prefix_append _ _
      simpa using hfirst.trans hx.sent

theorem sound_start (program : List PyValue) : (Exchange.start program).Sound program := by
  constructor <;> simp [Exchange.start]

theorem sound_of_run {program : List PyValue} {moves : List Move} {x : Exchange}
    (h : guardedRun Exchange.step (.start program) moves = some x) : x.Sound program :=
  guarded_invariant sound_step (sound_start program) h

theorem answer_eq_some {x : Exchange} {n : ℕ} {call : Call} {a : Answer}
    (h : x.answer n = some (call, a)) :
    ∃ c, x.connections[n]? = some c ∧ c.call = call ∧ c.stage = .returned a := by
  unfold Exchange.answer at h
  split at h
  · rename_i call' a' arrived broken hc
    obtain ⟨rfl, rfl⟩ := Prod.mk.inj (Option.some.inj h)
    exact ⟨_, hc, rfl, rfl⟩
  · cases h

theorem Exchange.Sound.value_at {program : List PyValue} {x : Exchange} (h : x.Sound program)
    {k n : ℕ} {v : PyValue} (hk : x.accepted[k]? = some (n, v)) : program[k]? = some v := by
  obtain ⟨rest, hrest⟩ := h.sent
  have hmap : (x.accepted.map Prod.snd)[k]? = some v := by
    rw [List.getElem?_map, hk, Option.map_some]
  have hlt := (List.getElem?_eq_some_iff.mp hmap).1
  rw [← hrest, List.append_assoc, List.getElem?_append_left hlt]
  exact hmap

def crossedMoves : List Move :=
  [.call .listenCoor, .call .listenBool, .openStream 1, .openStream 0, .accept 1, .accept 0,
    .arrive 1 1, .finish 1, .arrive 0 1, .disconnect 0, .finish 0]

def crossed : Exchange where
  program := []
  accepted := [(1, .int 0), (0, .int 12)]
  connections :=
    [⟨.listenCoor, .returned (.coor ⟨literal "-2,-2", some (literal "Error code 224")⟩), [49],
        true⟩,
      ⟨.listenBool, .returned (.bool ⟨1, none⟩), [48], false⟩]

def Call.failed : Call → Answer
  | .listenBool => .bool ⟨-1, some (literal "Error code 223")⟩
  | .listenCoor => .coor ⟨literal "-2,-2", some (literal "Error code 224")⟩

theorem ask_carrying_nil (call : Call) : call.ask (carrying []) = call.failed := by
  cases call <;> rfl

theorem wantsMore_nil (call : Call) : call.wantsMore [] = true := by
  cases call <;> rfl

/-- Call `n` waits on a connection that nothing was or will be written to, or has
failed on it. -/
structure Exchange.Silent (n : ℕ) (call : Call) (broken : Bool) (x : Exchange) : Prop where
  program : x.program = []
  accepted : n ∉ x.accepted.map Prod.fst
  connection : x.connections[n]? = some ⟨call, .reading, [], broken⟩ ∨
    broken = true ∧ x.connections[n]? = some ⟨call, .returned call.failed, [], true⟩

theorem Exchange.Silent.of_change {n m : ℕ} {call : Call} {broken broken' : Bool}
    {x y : Exchange} {f : Connection → Option Connection} (h : x.Silent n call broken)
    (hother : n ≠ m → broken = broken')
    (hreading : n = m → ∀ c', f ⟨call, .reading, [], broken⟩ = some c' →
      c' = ⟨call, .reading, [], broken'⟩ ∨
        broken' = true ∧ c' = ⟨call, .returned call.failed, [], true⟩)
    (hreturned : n = m → broken = true →
      ∀ c', f ⟨call, .returned call.failed, [], true⟩ = some c' →
        broken' = true ∧ c' = ⟨call, .returned call.failed, [], true⟩)
    (hy : x.change m f = some y) : y.Silent n call broken' := by
  obtain ⟨c, c', hc, hc', rfl⟩ := change_eq_some hy
  refine ⟨h.program, h.accepted, ?_⟩
  by_cases hnm : n = m
  · subst hnm
    have hlt := (List.getElem?_eq_some_iff.mp hc).1
    rw [List.getElem?_set_self hlt]
    rcases h.connection with hconn | ⟨hbroken, hconn⟩ <;> rw [hc] at hconn <;>
      obtain rfl := Option.some.inj hconn
    · rcases hreading rfl c' hc' with rfl | ⟨hb, rfl⟩
      · exact Or.inl rfl
      · exact Or.inr ⟨hb, rfl⟩
    · obtain ⟨hb, rfl⟩ := hreturned rfl hbroken c' hc'
      exact Or.inr ⟨hb, rfl⟩
  · rw [List.getElem?_set_ne (fun hmn => hnm hmn.symm), ← hother hnm]
    exact h.connection

theorem silent_step {n : ℕ} {call : Call} {broken : Bool} {x y : Exchange} {m : Move}
    (h : x.Silent n call broken) (hy : x.step m = some y) :
    y.Silent n call (broken || decide (m = .disconnect n)) := by
  cases m with
  | call new =>
      obtain rfl := Option.some.inj hy
      refine ⟨h.program, h.accepted, ?_⟩
      have hkept : ∀ c, x.connections[n]? = some c →
          (x.connections ++ [⟨new, .connecting, [], false⟩])[n]? = some c := by
        intro c hc
        rwa [List.getElem?_append_left (List.getElem?_eq_some_iff.mp hc).1]
      rw [decide_eq_false (by simp), Bool.or_false]
      rcases h.connection with hc | ⟨hb, hc⟩
      · exact Or.inl (hkept _ hc)
      · exact Or.inr ⟨hb, hkept _ hc⟩
  | refuse m e => exact h.of_change (by simp) (by simp) (by simp) hy
  | failStream m e => exact h.of_change (by simp) (by simp) (by simp) hy
  | openStream m => exact h.of_change (by simp) (by simp) (by simp) hy
  | accept m =>
      -- there is nothing left to send
      simp only [Exchange.step, h.program] at hy
      cases hy
  | arrive m k =>
      simp only [Exchange.step] at hy
      split at hy
      · rename_i v hv
        -- only an accepted connection has something to arrive
        have hne : n ≠ m := by
          rintro rfl
          obtain ⟨older, newer, hsplit, -⟩ := List.lookup_eq_some_iff.mp hv
          exact h.accepted (by simp [hsplit])
        exact h.of_change (by simp) (fun hnm => absurd hnm hne) (fun hnm => absurd hnm hne) hy
      · cases hy
  | disconnect m =>
      refine h.of_change ?_ ?_ ?_ hy
      · intro hne
        have hmove : Move.disconnect m ≠ .disconnect n :=
          fun heq => hne (Move.disconnect.inj heq).symm
        simp [hmove]
      · rintro rfl c' hc'
        simp_all
      · rintro rfl hb c' hc'
        simp_all
  | finish m =>
      refine h.of_change (by simp) ?_ (by simp) hy
      rintro rfl c' hc'
      simp only [wantsMore_nil, ask_carrying_nil] at hc'
      cases broken with
      | false => simp at hc'
      | true => simp_all
  | stop =>
      obtain rfl := Option.some.inj hy
      rw [decide_eq_false (by simp), Bool.or_false]
      exact ⟨rfl, h.accepted, h.connection⟩

theorem silent_run {n : ℕ} {call : Call} {broken : Bool} {x y : Exchange} {later : List Move}
    (h : x.Silent n call broken) (hy : guardedRun Exchange.step x later = some y) :
    y.Silent n call (broken || decide (Move.disconnect n ∈ later)) := by
  induction later generalizing x broken with
  | nil =>
      obtain rfl : x = y := Option.some.inj hy
      simpa using h
  | cons m rest ih =>
      obtain ⟨z, hz, hrest⟩ := guardedRun_cons hy
      have hlast := ih (silent_step h hz) hrest
      have hmem : (broken || decide (Move.disconnect n ∈ m :: rest)) =
          (broken || decide (m = .disconnect n) || decide (Move.disconnect n ∈ rest)) := by
        rw [Bool.or_assoc, ← Bool.decide_or]
        congr 1
        simp [eq_comm]
      rwa [hmem]

def waiting : Exchange := ⟨[], [], [⟨.listenCoor, .reading, [], false⟩]⟩

def waitedOut : Exchange :=
  ⟨[], [], [⟨.listenCoor, .returned Call.listenCoor.failed, [], true⟩,
    ⟨.listenBool, .connecting, [], false⟩]⟩

/-- What `2014 Vision.py` passes to `send`: a one in each of `n` rounds, and a text
when the rounds are over. -/
def visionProgram (n : ℕ) : List PyValue :=
  List.replicate n (.int 1) ++ [.other (asciiBytes "Stopped.")]

/-- No control characters, and shorter than 8 KiB. -/
def PlainText (v : PyValue) : Prop := (∀ b ∈ v.str, 32 ≤ b.toNat) ∧ v.str.length < 8194

theorem plainText_of_mem_visionProgram {n : ℕ} {v : PyValue} (hv : v ∈ visionProgram n) :
    PlainText v := by
  have hplain : ∀ w : PyValue, w.str.all (fun b => 32 ≤ b.toNat) = true → w.str.length ≤ 8 →
      PlainText w := by
    intro w hprintable hshort
    refine ⟨?_, by omega⟩
    simpa using hprintable
  rcases List.mem_append.mp hv with hone | hstopped
  · rw [List.eq_of_mem_replicate hone]
    exact hplain _ (by decide) (by decide)
  · rw [List.mem_singleton.mp hstopped]
    exact hplain _ (by decide) (by decide)

/-- An answer with nothing in it: no coordinates, and no false. -/
def Answer.Empty : Answer → Prop
  | .coor r => r.value = literal "-2,-2" ∧ r.printed ≠ none
  | .bool r => r.value ≠ 0

theorem listenCoor_empty {text : List UInt8} {link : Link}
    (hplain : ∀ b ∈ text, 32 ≤ b.toNat) (hshort : text.length < 8194)
    (hlink : Possible text link) :
    (listenCoor link).value = literal "-2,-2" ∧ (listenCoor link).printed ≠ none := by
  cases hlink with
  | refused e stream => simp [listenCoor, listen]
  | noStream e => simp [listenCoor, listen]
  | part hpart =>
      have heof := readUTF_printable (fun b hb => hplain b (hpart.subset hb))
        (Nat.lt_of_le_of_lt hpart.length_le hshort)
      simp [listenCoor, listen, carrying, heof]

theorem listenBool_ne_zero {text : List UInt8} {link : Link}
    (hplain : ∀ b ∈ text, 32 ≤ b.toNat) (hlink : Possible text link) :
    (listenBool link).value ≠ 0 := by
  cases hlink with
  | refused e stream => simp [listenBool, listen]
  | noStream e => simp [listenBool, listen]
  | @part bytes hpart =>
      cases bytes with
      | nil => simp [listenBool, listen, carrying, readBoolean, bind, Except.bind]
      | cons b rest =>
          have hb : b ≠ 0 := by
            have hprintable := hplain b (hpart.subset (by simp))
            rintro rfl
            revert hprintable
            decide
          simp [listenBool, listen, carrying, readBoolean, hb, bind, Except.bind, pure,
            Except.pure]

theorem empty_ask {text : List UInt8} {link : Link} (hplain : ∀ b ∈ text, 32 ≤ b.toNat)
    (hshort : text.length < 8194) (hlink : Possible text link) (call : Call) :
    (call.ask link).Empty := by
  cases call with
  | listenBool => exact listenBool_ne_zero hplain hlink
  | listenCoor => exact listenCoor_empty hplain hshort hlink

/-- As long as the vision computer sends plain texts, no call of any interleaving
ever returns coordinates or a false, whatever part of a text reaches it. -/
theorem nothing_arrives {program : List PyValue} {moves : List Move} {x : Exchange}
    (hprogram : ∀ v ∈ program, PlainText v)
    (h : guardedRun Exchange.step (.start program) moves = some x) {n : ℕ} {call : Call}
    {a : Answer} (ha : x.answer n = some (call, a)) : a.Empty := by
  have hsound := sound_of_run h
  obtain ⟨c, hc, rfl, hstage⟩ := answer_eq_some ha
  obtain ⟨text, link, hwrote, hlink, rfl⟩ := (hsound.connections n c hc).returned a hstage
  rcases hwrote with rfl | ⟨v, hv, rfl⟩
  · exact empty_ask (by simp) (by simp) hlink c.call
  · have hmem : v ∈ program := by
      apply hsound.sent.subset
      exact List.mem_append_left _ (List.mem_map.mpr ⟨(n, v), hv, rfl⟩)
    exact empty_ask (hprogram v hmem).1 (hprogram v hmem).2 hlink c.call

def oneRoundMoves : List Move :=
  [.call .listenBool, .openStream 0, .accept 0, .arrive 0 1, .finish 0, .call .listenCoor,
    .openStream 1, .accept 1, .arrive 1 4, .disconnect 1, .finish 1]

def oneRound : Exchange where
  program := []
  accepted := [(0, .int 1), (1, .other (asciiBytes "Stopped."))]
  connections :=
    [⟨.listenBool, .returned (.bool ⟨1, none⟩), [49], false⟩,
      ⟨.listenCoor, .returned Call.listenCoor.failed, asciiBytes "Stop", true⟩]

theorem nothing_arrives_oneRound :
    guardedRun Exchange.step (.start (visionProgram 1)) oneRoundMoves = some oneRound ∧
      (Answer.bool ⟨1, none⟩).Empty ∧ Call.listenCoor.failed.Empty := by
  have hrun : guardedRun Exchange.step (.start (visionProgram 1)) oneRoundMoves =
      some oneRound := rfl
  have hplain : ∀ v ∈ visionProgram 1, PlainText v :=
    fun _ hv => plainText_of_mem_visionProgram hv
  have hfirst : oneRound.answer 0 = some (.listenBool, .bool ⟨1, none⟩) := rfl
  have hsecond : oneRound.answer 1 = some (.listenCoor, Call.listenCoor.failed) := rfl
  exact ⟨hrun, nothing_arrives hplain hrun hfirst, nothing_arrives hplain hrun hsecond⟩

end Sotabots.Network
