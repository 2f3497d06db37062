import IntervalDump.Text.Utf8
/-!
# Sources of bytes

A source hands out a document in refills, none of them empty, and then ends or fails. The bytes of
the document are those of its refills one after the other, except that a byte order mark is dropped
if the first refill holds all of it.
-/

namespace IntervalDump

/-- Refills of bytes, and what stands behind the last one. -/
structure Source where
  refills : List (List UInt8)
  refills_ne : ∀ refill ∈ refills, refill ≠ []
  /-- Why the source fails behind its last refill; `none` if the document ends there. -/
  failure? : Option String

namespace Source

/-- The three bytes that a text may begin with without being any part of it. -/
def byteOrderMark : List UInt8 :=
  [0xEF, 0xBB, 0xBF]

/-- The bytes without a byte order mark at their beginning. -/
def dropMark (bytes : List UInt8) : List UInt8 :=
  if byteOrderMark.isPrefixOf bytes then bytes.drop byteOrderMark.length else bytes

/-- The bytes of the document, refill by refill. -/
def document (source : Source) : List (List UInt8) :=
  match source.refills with
  | [] => []
  | first :: rest => dropMark first :: rest

/-- The bytes of the document. -/
def bytes (source : Source) : List UInt8 :=
  source.document.flatten

/-- The bytes in runs of `size`, the last one perhaps shorter, behind the runs in `out`, of which
the last one comes first. -/
def chunksFrom (size : Nat) (out : List (List UInt8)) (bytes : List UInt8) : List (List UInt8) :=
  if size = 0 ∨ bytes = [] then out.reverse
  else chunksFrom size (bytes.take size :: out) (bytes.drop size)
termination_by bytes.length
decreasing_by
  have : 0 < bytes.length := List.length_pos_iff.2 (by simp_all)
  simp only [List.length_drop]
  omega

/-- The bytes in runs of `size`, the last one perhaps shorter. -/
def chunks (size : Nat) (bytes : List UInt8) : List (List UInt8) :=
  chunksFrom size [] bytes

/-- No run that is cut is empty, if none before it is. -/
theorem ne_nil_of_mem_chunksFrom {size : Nat} {out : List (List UInt8)} {bytes chunk : List UInt8}
    (hout : ∀ chunk ∈ out, chunk ≠ []) (h : chunk ∈ chunksFrom size out bytes) : chunk ≠ [] := by
  fun_induction chunksFrom size out bytes with
  | case1 out bytes => exact hout chunk (List.mem_reverse.1 h)
  | case2 out bytes hne ih =>
    refine ih (fun c hc => ?_) h
    rcases List.mem_cons.1 hc with rfl | hc
    · simpa using hne
    · exact hout c hc

/-- No run is empty. -/
theorem ne_nil_of_mem_chunks {size : Nat} {bytes chunk : List UInt8}
    (h : chunk ∈ chunks size bytes) : chunk ≠ [] :=
  ne_nil_of_mem_chunksFrom (by simp) h

/-- Nothing is lost by cutting bytes into runs. -/
theorem flatten_chunksFrom {size : Nat} (hsize : size ≠ 0) (out : List (List UInt8))
    (bytes : List UInt8) : (chunksFrom size out bytes).flatten = out.reverse.flatten ++ bytes := by
  fun_induction chunksFrom size out bytes with
  | case1 out bytes h =>
    obtain rfl : bytes = [] := by simpa [hsize] using h
    simp
  | case2 out bytes _ ih => simp [ih, List.take_append_drop]

/-- The runs are the bytes, cut. -/
theorem flatten_chunks {size : Nat} (hsize : size ≠ 0) (bytes : List UInt8) :
    (chunks size bytes).flatten = bytes := by
  simp [chunks, flatten_chunksFrom hsize]

/-- The runs that are there already come first and take no part. -/
theorem chunksFrom_append (size : Nat) (out earlier : List (List UInt8)) (bytes : List UInt8) :
    chunksFrom size (out ++ earlier) bytes = earlier.reverse ++ chunksFrom size out bytes := by
  fun_induction chunksFrom size out bytes with
  | case1 out bytes h => rw [chunksFrom, if_pos h, List.reverse_append]
  | case2 out bytes h ih => rw [chunksFrom, if_neg h, ← List.cons_append, ih]

/-- Of no bytes there is no run. -/
theorem chunks_nil (size : Nat) : chunks size [] = [] := by
  rw [chunks, chunksFrom, if_pos (.inr rfl), List.reverse_nil]

/-- The first run has as many bytes as it may, and the others are cut from the rest. -/
theorem chunks_of_ne_nil {size : Nat} (hsize : size ≠ 0) {bytes : List UInt8} (h : bytes ≠ []) :
    chunks size bytes = bytes.take size :: chunks size (bytes.drop size) := by
  rw [chunks, chunksFrom, if_neg (not_or.mpr ⟨hsize, h⟩)]
  exact chunksFrom_append size [] [bytes.take size] (bytes.drop size)

/-- A source that hands out at most `size` bytes at a time. -/
def chunked (size : Nat) (bytes : List UInt8) (failure? : Option String) : Source :=
  ⟨chunks size bytes, fun _ => ne_nil_of_mem_chunks, failure?⟩

/-- A source that hands out all its bytes at once. -/
def whole (bytes : List UInt8) : Source :=
  chunked bytes.length bytes none

/-- A text is handed out at once. -/
def ofText (text : String) : Source :=
  whole (Utf8.encode text)

/-- The size of the refills when a file is read. -/
def fileRefill : Nat := 8192

end Source

end IntervalDump
