import Liso.Message.Peer

/-! What can be read off the trace of a connection. -/

namespace Liso

namespace Event

def putByte : Event → Option OutByte
  | .put byte => some byte
  | _ => none

def sentBytes : Event → List OutByte
  | .sent bytes => bytes
  | _ => []

def readBytes : Event → Bytes
  | .cgiRead bytes => bytes
  | _ => []

def receivedBytes : Event → Bytes
  | .received bytes => bytes
  | _ => []

def code : Event → Option Code
  | .returned code => some code
  | _ => none

def parsedBlock : Event → Option Bytes
  | .parsed _ block => some block
  | _ => none

def framedRequest : Event → Option (Bytes × Option Bytes)
  | .framed block body => some (block, body)
  | _ => none

def ordinal : Event → Option Nat
  | .parsed req _ => some req
  | .put byte => some byte.req
  | .cgiEnded req => some req
  | _ => none

def ofPass : Event → Bool
  | .parsed .. => true
  | .framed .. => true
  | .requestFreed => true
  | .put _ => true
  | .opened _ => true
  | .closed _ => true
  | _ => false

def neutral : Event → Bool
  | .put _ => false
  | .lost _ => false
  | .sent _ => false
  | .cgiBuffered _ => false
  | .cgiWritten _ => false
  | .cgiRead _ => false
  | _ => true

end Event

namespace Trace

def puts (trace : List Event) : List OutByte := trace.filterMap Event.putByte

def sent (trace : List Event) : List OutByte := trace.flatMap Event.sentBytes

def reads (trace : List Event) : Bytes := trace.flatMap Event.readBytes

def received (trace : List Event) : Bytes := trace.flatMap Event.receivedBytes

def blocks (trace : List Event) : List Bytes := trace.filterMap Event.parsedBlock

def framed (trace : List Event) : List (Bytes × Option Bytes) :=
  trace.filterMap Event.framedRequest

def codes (trace : List Event) : List Code := trace.filterMap Event.code

def ordinals (trace : List Event) : List Nat := trace.filterMap Event.ordinal

/-- What was buffered for the latest child, and what `write` accepted of it. -/
def cgiStep : Bytes × Bytes → Event → Bytes × Bytes
  | _, .cgiBuffered bytes => (bytes, [])
  | (buffered, written), .cgiWritten bytes => (buffered, written ++ bytes)
  | stream, _ => stream

def cgiStream (trace : List Event) : Bytes × Bytes := trace.foldl cgiStep ([], [])

variable (front back : List Event)

@[simp] theorem puts_append : puts (front ++ back) = puts front ++ puts back :=
  List.filterMap_append

@[simp] theorem sent_append : sent (front ++ back) = sent front ++ sent back :=
  List.flatMap_append

@[simp] theorem reads_append : reads (front ++ back) = reads front ++ reads back :=
  List.flatMap_append

@[simp] theorem received_append : received (front ++ back) = received front ++ received back :=
  List.flatMap_append

@[simp] theorem framed_append : framed (front ++ back) = framed front ++ framed back :=
  List.filterMap_append

@[simp] theorem ordinals_append : ordinals (front ++ back) = ordinals front ++ ordinals back :=
  List.filterMap_append

@[simp] theorem puts_map_put (bytes : List OutByte) : puts (bytes.map .put) = bytes := by
  simp [puts, List.filterMap_map, Function.comp_def, Event.putByte]

theorem received_map_put (bytes : List OutByte) : received (bytes.map .put) = [] := by
  simp [received, List.flatMap_map, Event.receivedBytes]

theorem framed_map_put (bytes : List OutByte) : framed (bytes.map .put) = [] := by
  simp [framed, List.filterMap_map, Function.comp_def, Event.framedRequest]

theorem sent_ofPass {events : List Event} (passes : ∀ event ∈ events, event.ofPass = true) :
    sent events = [] := by
  refine List.flatMap_eq_nil_iff.mpr fun event member => ?_
  have pass := passes event member
  cases event <;> first | rfl | cases pass

theorem reads_ofPass {events : List Event} (passes : ∀ event ∈ events, event.ofPass = true) :
    reads events = [] := by
  refine List.flatMap_eq_nil_iff.mpr fun event member => ?_
  have pass := passes event member
  cases event <;> first | rfl | cases pass

theorem received_ofPass {events : List Event} (passes : ∀ event ∈ events, event.ofPass = true) :
    received events = [] := by
  refine List.flatMap_eq_nil_iff.mpr fun event member => ?_
  have pass := passes event member
  cases event <;> first | rfl | cases pass

theorem foldl_ofPass {σ : Type} {step : σ → Event → σ}
    (still : ∀ s event, event.ofPass = true → step s event = s) {events : List Event}
    (passes : ∀ event ∈ events, event.ofPass = true) (s : σ) : events.foldl step s = s := by
  induction events with
  | nil => rfl
  | cons event events ih =>
      rw [List.foldl_cons, still s event (passes event List.mem_cons_self)]
      exact ih fun other member => passes other (List.mem_cons_of_mem _ member)

theorem cgiStream_ofPass {events : List Event} (passes : ∀ event ∈ events, event.ofPass = true) :
    cgiStream (front ++ events) = cgiStream front := by
  rw [cgiStream, List.foldl_append]
  refine foldl_ofPass (fun stream event pass => ?_) passes _
  cases event <;> first | rfl | cases pass

theorem cgiStream_map_put (bytes : List OutByte) :
    cgiStream (front ++ bytes.map .put) = cgiStream front := by
  refine cgiStream_ofPass front fun event member => ?_
  obtain ⟨byte, _, rfl⟩ := List.mem_map.mp member
  rfl

theorem puts_sublist (trace : List Event) :
    ((puts trace).map OutByte.req).Sublist (ordinals trace) := by
  induction trace with
  | nil => exact List.nil_sublist _
  | cons event trace ih =>
      cases event with
      | put byte => exact ih.cons_cons byte.req
      | parsed req _ => exact ih.cons req
      | cgiEnded req => exact ih.cons req
      | _ => exact ih

theorem req_mem_ordinals {trace : List Event} {byte : OutByte} (member : byte ∈ puts trace) :
    byte.req ∈ ordinals trace :=
  (puts_sublist trace).subset (List.mem_map_of_mem member)

/-- The requests come one after the other, from `low` up to `high`. -/
structure InOrder (low high : Nat) (trace : List Event) : Prop where
  sorted : (ordinals trace).Pairwise (· ≤ ·)
  bounds : ∀ req ∈ ordinals trace, low ≤ req ∧ req ≤ high

namespace InOrder

variable {front back}
variable {low middle high : Nat}

theorem none (empty : ordinals front = []) : InOrder low high front := by
  constructor <;> rw [empty]
  · exact List.Pairwise.nil
  · exact nofun

theorem append (first : InOrder low middle front) (second : InOrder middle high back)
    (upward : low ≤ middle) (onward : middle ≤ high) : InOrder low high (front ++ back) where
  sorted := by
    rw [ordinals_append, List.pairwise_append]
    refine ⟨first.sorted, second.sorted, fun a before b after => ?_⟩
    exact (first.bounds a before).2.trans (second.bounds b after).1
  bounds := by
    intro req member
    rw [ordinals_append, List.mem_append] at member
    rcases member with before | after
    · have bounds := first.bounds req before
      omega
    · have bounds := second.bounds req after
      omega

theorem single (upward : low ≤ high) (same : ∀ req ∈ ordinals front, req = high) :
    InOrder low high front where
  sorted := by
    rw [List.pairwise_iff_forall_sublist]
    intro a b inside
    have first := same a (inside.subset (by simp))
    have second := same b (inside.subset (by simp))
    omega
  bounds := by
    intro req member
    have known := same req member
    omega

end InOrder

end Trace

end Liso
