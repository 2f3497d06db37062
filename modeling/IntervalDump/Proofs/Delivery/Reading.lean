import Mathlib.Data.List.Induction
import IntervalDump.Proofs.Delivery.Replay
/-!
# Reading byte by byte

A delivery takes refills, and does something at the end of each. Here a document is written as one
list of bytes, each of which knows whether a refill began with it (`Arrival`); the end of a refill
is noticed when the next one begins.

* **One list is enough** (`Source.events_script`, `Source.result_script`): the script of a source is
  the reading of its arrivals and what the end makes of it.
* **A reading is never taken back** (`Script.ofArrivals_prefix`, `Script.fault?_of_prefix`): the
  events of the first bytes are the first events, and a fault in them is the fault of the whole.
-/

namespace IntervalDump

namespace Script

variable {α β γ : Type}

/-- A script that gives nothing and has a result goes on with it. -/
theorem pure_bind (a : α) (next : α → Script β) : pure a >>= next = next a :=
  bind_of_ok rfl next

instance : LawfulMonad Script :=
  LawfulMonad.mk' Script
    (fun script => by
      rcases hresult : script.result with fault | a
      · exact (bind_of_error hresult _).trans (by rw [← hresult])
      · exact (bind_of_ok hresult _).trans (by
          show (⟨script.events ++ [], .ok a⟩ : Script _) = script
          rw [List.append_nil, ← hresult]))
    pure_bind
    (fun script f g => by
      rcases hresult : script.result with fault | a
      · rw [bind_of_error hresult, bind_of_error hresult, bind_of_error rfl]
      · rw [bind_of_ok hresult f, bind_of_ok hresult]
        rcases hf : (f a).result with fault | b
        · rw [bind_of_error rfl, bind_of_error hf]
        · rw [bind_of_ok rfl, bind_of_ok hf, List.append_assoc])

/-- What was given stays given. -/
theorem events_prefix_bind (script : Script α) (next : α → Script β) :
    script.events <+: (script >>= next).events := by
  rcases hresult : script.result with fault | a
  · exact ⟨[], by rw [bind_of_error hresult, List.append_nil]⟩
  · exact ⟨(next a).events, by rw [bind_of_ok hresult]⟩

end Script

/-! ## Bytes as they come in -/

/-- A byte as it comes in. -/
structure Arrival where
  /-- A refill begins with this byte. -/
  isFirst : Bool
  byte : UInt8
  deriving DecidableEq, Repr

namespace Arrival

/-- The bytes of one refill. -/
def ofRefill : List UInt8 → List Arrival
  | [] => []
  | b :: bytes => ⟨true, b⟩ :: bytes.map fun b => ⟨false, b⟩

/-- A refill lets its own bytes come in. -/
theorem map_byte_ofRefill (refill : List UInt8) : (ofRefill refill).map byte = refill := by
  cases refill with
  | nil => rfl
  | cons b bytes =>
    rw [ofRefill, List.map_cons, List.map_map]
    exact congrArg (b :: ·) (List.map_id bytes)

/-- Refills let the bytes of all of them come in. -/
theorem map_byte_flatMap (refills : List (List UInt8)) :
    (refills.flatMap ofRefill).map byte = refills.flatten := by
  induction refills with
  | nil => rfl
  | cons refill refills ih =>
    rw [List.flatMap_cons, List.map_append, map_byte_ofRefill, ih, List.flatten_cons]

end Arrival

/-- The bytes of the document as they come in. -/
def Source.arrivals (source : Source) : List Arrival :=
  source.document.flatMap Arrival.ofRefill

/-- The bytes that come in are those of the document. -/
theorem Source.map_byte_arrivals (source : Source) :
    source.arrivals.map Arrival.byte = source.bytes :=
  Arrival.map_byte_flatMap source.document

namespace Standing

/-- If a refill begins with the byte that comes in, the one before has ended. -/
def notice (s : Standing) (a : Arrival) : Standing :=
  if a.isFirst then s.endRefill else s

/-- A byte comes in. -/
def arrive (s : Standing) (a : Arrival) : Script Standing :=
  (s.notice a).readByte a.byte

/-- At its first byte, a refill ends the one before. -/
theorem foldlM_arrive_ofRefill (s : Standing) (b : UInt8) (bytes : List UInt8) :
    (Arrival.ofRefill (b :: bytes)).foldlM arrive s = (b :: bytes).foldlM readByte s.endRefill := by
  rw [Arrival.ofRefill, List.foldlM_cons, List.foldlM_cons]
  simp only [List.foldlM_map]
  rfl

/-- The ends of the refills may be noticed late. -/
theorem foldlM_readRefill {refills : List (List UInt8)} (hne : ∀ refill ∈ refills, refill ≠ [])
    (s : Standing) :
    refills.foldlM readRefill s.endRefill =
      (refills.flatMap Arrival.ofRefill).foldlM arrive s >>= fun s => pure s.endRefill := by
  induction refills generalizing s with
  | nil => rfl
  | cons refill refills ih =>
    obtain ⟨b, bytes, rfl⟩ := List.exists_cons_of_ne_nil (hne refill List.mem_cons_self)
    have hrest := ih fun refill hmem => hne refill (List.mem_cons_of_mem _ hmem)
    rw [List.foldlM_cons, List.flatMap_cons, List.foldlM_append, foldlM_arrive_ofRefill, readRefill]
    simp only [bind_assoc, Script.pure_bind, hrest]

/-- Whether the last refill has ended does not matter to the end of the source. -/
@[simp] theorem finish_endRefill (s : Standing) (failure? : Option String) :
    s.endRefill.finish failure? = s.finish failure? := by
  obtain ⟨⟨mode, seen, opened, position⟩, pending, elements⟩ := s
  cases mode <;> rfl

end Standing

/-! ## The reading of a list of bytes -/

/-- What bytes at the beginning of a document give. -/
def Script.ofArrivals (arrivals : List Arrival) : Script Standing :=
  arrivals.foldlM Standing.arrive {}

namespace Script

/-- What comes in later is read from where the reading stands. -/
theorem ofArrivals_append (first second : List Arrival) :
    ofArrivals (first ++ second) = ofArrivals first >>= fun s => second.foldlM Standing.arrive s :=
  List.foldlM_append

/-- The last byte is read last. -/
theorem ofArrivals_concat (arrivals : List Arrival) (a : Arrival) :
    ofArrivals (arrivals ++ [a]) = ofArrivals arrivals >>= fun s => s.arrive a := by
  rw [ofArrivals_append]
  simp only [List.foldlM_cons, List.foldlM_nil, bind_pure]

/-- A byte behind a reading without a fault is read from where that stands. -/
theorem ofArrivals_concat_of_ok {arrivals : List Arrival} {s : Standing}
    (h : (ofArrivals arrivals).result = .ok s) (a : Arrival) :
    ofArrivals (arrivals ++ [a]) =
      ⟨(ofArrivals arrivals).events ++ (s.arrive a).events, (s.arrive a).result⟩ := by
  rw [ofArrivals_concat, bind_of_ok h]

/-- Behind a fault nothing is read. -/
theorem ofArrivals_append_of_error {first : List Arrival} {fault : Markup.Fault}
    (h : (ofArrivals first).result = .error fault) (second : List Arrival) :
    ofArrivals (first ++ second) = ⟨(ofArrivals first).events, .error fault⟩ := by
  rw [ofArrivals_append, bind_of_error h]

/-- **The events of the first bytes are the first events.** -/
theorem ofArrivals_prefix {first whole : List Arrival} (h : first <+: whole) :
    (ofArrivals first).events <+: (ofArrivals whole).events := by
  obtain ⟨second, rfl⟩ := h
  rw [ofArrivals_append]
  exact events_prefix_bind _ _

/-- What holds at the beginning and is kept by every byte holds wherever a reading stands. -/
theorem ofArrivals_induction {P : List Arrival → Standing → Prop} (nil : P [] {})
    (concat : ∀ arrivals s a s', (ofArrivals arrivals).result = .ok s → P arrivals s →
      (s.arrive a).result = .ok s' → P (arrivals ++ [a]) s')
    {arrivals : List Arrival} {s : Standing} (h : (ofArrivals arrivals).result = .ok s) :
    P arrivals s := by
  induction arrivals using List.reverseRecOn generalizing s with
  | nil =>
    cases h
    exact nil
  | append_singleton arrivals a ih =>
    rcases hbefore : (ofArrivals arrivals).result with fault | before
    · rw [ofArrivals_append_of_error hbefore] at h
      cases h
    · rw [ofArrivals_concat_of_ok hbefore] at h
      exact concat arrivals before a s hbefore (ih hbefore) h

/-- **A fault of the first bytes is the fault of the whole.** -/
theorem fault?_of_prefix {first whole : List Arrival} (h : first <+: whole) {fault : Markup.Fault}
    (hfault : (ofArrivals first).fault? = some fault) : (ofArrivals whole).fault? = some fault := by
  obtain ⟨second, rfl⟩ := h
  rcases hresult : (ofArrivals first).result with earlier | s
  · rw [fault?, hresult] at hfault
    cases hfault
    rw [ofArrivals_append_of_error hresult, fault?]
  · rw [fault?, hresult] at hfault
    cases hfault

end Script

/-! ## The script of a source -/

namespace Source

variable (source : Source)

/-- Refills are read as one list, of which the last refill is ended. -/
theorem foldlM_document :
    source.document.foldlM Standing.readRefill {} =
      Script.ofArrivals source.arrivals >>= fun s => pure s.endRefill := by
  unfold arrivals document
  rcases hrefills : source.refills with _ | ⟨first, rest⟩
  · rfl
  · have hrest : ∀ refill ∈ rest, refill ≠ [] := fun refill hmem =>
      source.refills_ne refill (hrefills ▸ List.mem_cons_of_mem _ hmem)
    dsimp only
    rcases hfirst : dropMark first with _ | ⟨b, bytes⟩
    · -- the first refill was nothing but the mark
      exact Standing.foldlM_readRefill hrest {}
    · refine Standing.foldlM_readRefill (s := {}) ?_
      intro refill hmem
      rcases List.mem_cons.mp hmem with rfl | hmem
      · exact List.cons_ne_nil _ _
      · exact hrest refill hmem

/-- The script of a source is the reading of its bytes and what the end makes of it. -/
theorem script_eq :
    source.script = (⟨[.startDocument], .ok ()⟩ : Script Unit) >>= fun _ =>
      Script.ofArrivals source.arrivals >>= fun s => ⟨[], s.finish source.failure?⟩ := by
  have hstart : (⟨[.startDocument], .ok {}⟩ : Script Standing) >>= (fun s =>
      source.document.foldlM Standing.readRefill s) =
        (⟨[.startDocument], .ok ()⟩ : Script Unit) >>= fun _ =>
          source.document.foldlM Standing.readRefill {} := by
    rw [Script.bind_of_ok rfl, Script.bind_of_ok rfl]
  rw [script, body, hstart, foldlM_document]
  simp only [bind_assoc, Script.pure_bind, Standing.finish_endRefill]

/-- The events of a source are the start of the document and what the bytes give. -/
theorem events_script :
    source.script.events = .startDocument :: (Script.ofArrivals source.arrivals).events := by
  rw [script_eq, Script.bind_of_ok rfl]
  rcases hresult : (Script.ofArrivals source.arrivals).result with fault | s
  · rw [Script.bind_of_error hresult]
    rfl
  · rw [Script.bind_of_ok hresult, List.append_nil]
    rfl

/-- A fault of the bytes is the fault of the source. -/
theorem result_script_of_error {fault : Markup.Fault}
    (h : (Script.ofArrivals source.arrivals).result = .error fault) :
    source.script.result = .error fault := by
  rw [script_eq, Script.bind_of_ok rfl, Script.bind_of_error h]

/-- Without a fault of the bytes, the end decides. -/
theorem result_script_of_ok {s : Standing}
    (h : (Script.ofArrivals source.arrivals).result = .ok s) :
    source.script.result = s.finish source.failure? := by
  rw [script_eq, Script.bind_of_ok rfl, Script.bind_of_ok h]

end Source

end IntervalDump
