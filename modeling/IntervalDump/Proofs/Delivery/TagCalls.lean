import IntervalDump.Proofs.Delivery.Unclosed
/-!
# The tags of a document and the calls for them

The lexer alone says which start and empty tags a document has (`Source.tags`), whether they can be
decoded or not. **A delivery calls for one tag after the other, with what the tag spells, and stops
at the first one that is not decoded** (`deliver_keepsTagBytes`); a tag that holds other bytes than
those of a text never gets that far.

* **The tags stand in the document**, in this order (`Source.contains_tags`).
* **A reading starts the elements of these tags** (`Script.Starts`, `Source.starts_script`).
  The only other names that are decoded are those of end tags, and they never fail
  (`InStep.exists_pending`).
-/

namespace IntervalDump

open Markup (Lexer Token)

/-! ## The tags of a document -/

/-- The content of a start tag or of the tag of an element without content. -/
def Markup.Token.content? : Token → Option (List UInt8)
  | .start content => some content
  | .empty content => some content
  | .finish _ => none

/-- A tag without content is an end tag. -/
theorem Markup.Token.exists_finish {token : Token} (h : token.content? = none) :
    ∃ raw, token = .finish raw := by
  cases token with
  | start => cases h
  | empty => cases h
  | finish raw => exact ⟨raw, rfl⟩

namespace Markup.Lexer

/-- If a refill begins with the byte that comes in, the one before has ended. -/
def notice (l : Lexer) (a : Arrival) : Lexer :=
  if a.isFirst then l.endRefill else l

/-- The contents of the tags that are completed while bytes come in. -/
def tags (l : Lexer) : List Arrival → List (List UInt8)
  | [] => []
  | a :: arrivals =>
    match (l.notice a).feed a.byte with
    | .quiet next => tags next arrivals
    | .token token next => token.content?.toList ++ tags next arrivals
    | .fault _ _ => []

section Tags

variable {l next : Lexer} {a : Arrival}

/-- A byte that completes no tag adds none. -/
theorem tags_cons_of_quiet (h : (l.notice a).feed a.byte = .quiet next)
    (arrivals : List Arrival) : l.tags (a :: arrivals) = next.tags arrivals := by
  rw [tags, h]

/-- A byte that completes a tag adds its content, if the tag has some. -/
theorem tags_cons_of_token {token : Token} (h : (l.notice a).feed a.byte = .token token next)
    (arrivals : List Arrival) :
    l.tags (a :: arrivals) = token.content?.toList ++ next.tags arrivals := by
  rw [tags, h]

/-- A byte that shows a fault is the last one. -/
theorem tags_cons_of_fault {position : Nat} {fault : Markup.TokenFault}
    (h : (l.notice a).feed a.byte = .fault position fault) (arrivals : List Arrival) :
    l.tags (a :: arrivals) = [] := by
  rw [tags, h]

end Tags

/-- The tags with these contents stand in the bytes, one behind the other. -/
inductive Contains : List (List UInt8) → List UInt8 → Prop
  | nil (bytes : List UInt8) : Contains [] bytes
  | start (before : List UInt8) {content : List UInt8} {tags : List (List UInt8)}
      {behind : List UInt8} (hbehind : Contains tags behind) :
      Contains (content :: tags)
        (before ++ '<'.toUInt8 :: content ++ '>'.toUInt8 :: behind)
  | empty (before : List UInt8) {content : List UInt8} {tags : List (List UInt8)}
      {behind : List UInt8} (hbehind : Contains tags behind) :
      Contains (content :: tags)
        (before ++ '<'.toUInt8 :: content ++ '/'.toUInt8 :: '>'.toUInt8 :: behind)

end Markup.Lexer

/-- The contents of the start and empty tags of a document, in order, up to the first byte that
cannot be part of one. -/
def Source.tags (source : Source) : List (List UInt8) :=
  ({} : Lexer).tags source.arrivals

/-! ## The tags stand in the document -/

namespace Markup.Lexer

variable {l m : Lexer}

/-- If the lexer is in markup, the bytes read end with that markup. -/
def Behind (l : Lexer) (read : List UInt8) : Prop :=
  l.mode.isMarkup = true → ∃ before, read = before ++ '<'.toUInt8 :: l.markup

/-- Noticing a byte leaves the lexer behind the same bytes. -/
theorem Behind.notice {read : List UInt8} (h : l.Behind read) (a : Arrival) :
    (l.notice a).Behind read := by
  unfold Lexer.notice
  split
  · intro hmode
    rw [isMarkup_endRefill] at hmode
    rw [markup_endRefill]
    exact h hmode
  · exact h

/-- In text, there is no markup to be behind. -/
theorem Behind.of_text (h : l.mode = .text) (read : List UInt8) : l.Behind read := by
  intro hmode
  rw [h] at hmode
  cases hmode

/-- A byte that completes nothing. -/
theorem Behind.quiet {read : List UInt8} {b : UInt8} {next : Lexer} (h : l.Behind read)
    (hfeed : l.feed b = .quiet next) : next.Behind (read ++ [b]) := by
  have hfeeds := feeds_feed l b
  rw [hfeed] at hfeeds
  intro hmode
  cases hfeeds with
  | pass mode htext =>
    rw [pass, htext] at hmode
    cases hmode
  | begin _ hb => exact ⟨read, by rw [hb]; rfl⟩
  | keep mode hmarkup =>
    obtain ⟨before, rfl⟩ := h hmarkup
    exact ⟨before, by rw [markup_keep]; simp⟩

/-- **The contents of the tags stand among the bytes**, each one in its place. -/
theorem contains_tags {read : List UInt8} (h : l.Behind read) (arrivals : List Arrival) :
    Contains (l.tags arrivals) (read ++ arrivals.map Arrival.byte) := by
  induction arrivals generalizing l read with
  | nil => exact .nil _
  | cons a arrivals ih =>
    have hnotice := h.notice a
    have hfeeds := feeds_feed (l.notice a) a.byte
    rw [List.map_cons]
    rcases hfeed : (l.notice a).feed a.byte with next | ⟨token, next⟩ | ⟨position, fault⟩
    · rw [tags_cons_of_quiet hfeed, List.append_cons]
      exact ih (hnotice.quiet hfeed)
    · rw [tags_cons_of_token hfeed]
      rw [hfeed] at hfeeds
      cases hfeeds with
      | start hmarkup hb =>
        obtain ⟨before, rfl⟩ := hnotice hmarkup
        rw [hb]
        exact .start before (ih (Behind.of_text rfl []))
      | empty content hmarkup hb hcontent =>
        obtain ⟨before, rfl⟩ := hnotice hmarkup
        have hbytes : before ++ '<'.toUInt8 :: (content ++ ['/'.toUInt8]) ++
            '>'.toUInt8 :: arrivals.map Arrival.byte = before ++ '<'.toUInt8 :: content ++
              '/'.toUInt8 :: '>'.toUInt8 :: arrivals.map Arrival.byte := by simp
        rw [hb, hcontent, hbytes]
        exact .empty before (ih (Behind.of_text rfl []))
      | finish outer =>
        rw [List.append_cons]
        exact ih (Behind.of_text rfl (read ++ [a.byte]))
    · rw [tags_cons_of_fault hfeed]
      exact .nil _

end Markup.Lexer

/-- The contents of the tags of a source stand among its bytes. -/
theorem Source.contains_tags (source : Source) : Lexer.Contains source.tags source.bytes := by
  rw [← map_byte_arrivals]
  exact Lexer.contains_tags (Lexer.Behind.of_text rfl []) source.arrivals

/-! ## The elements that a reading starts -/

/-- The name and the attributes of an event that starts an element. -/
def Event.start? : Event → Option (Name × List Attribute)
  | .startElement name attributes => some (name, attributes)
  | _ => none

/-- The element is decoded from the content of its tag. -/
def Markup.Decodes (content : List UInt8) (start : Name × List Attribute) : Prop :=
  decodeTag content = .ok start

/-- Where all tags can be decoded, each of them can. -/
theorem Markup.Decodes.exists_of_mem {contents : List (List UInt8)}
    {starts : List (Name × List Attribute)} (h : List.Forall₂ Decodes contents starts)
    {content : List UInt8} (hmem : content ∈ contents) :
    ∃ start, decodeTag content = .ok start := by
  have hboth := h.imp fun _ start (htag : Decodes _ start) =>
    And.intro (Exists.intro start htag) htag
  exact (List.forall₂_and_left _ _ |>.mp hboth).1 content hmem

namespace Script

variable {α β : Type}

/-- The events start the elements that are decoded from the first of these tags, one by one. If
there is another tag, it is not decoded, and the script ends with the fault of it. -/
def Starts (script : Script α) (tags : List (List UInt8)) : Prop :=
  ∃ decoded undecoded, tags = decoded ++ undecoded ∧
    List.Forall₂ Markup.Decodes decoded (script.events.filterMap Event.start?) ∧
    ∀ content later, undecoded = content :: later →
      ∃ fault, Markup.decodeTag content = .error fault ∧ script.result = .error fault

/-- A script without events has no starts. -/
theorem starts_nil {script : Script α} (h : script.events = []) : script.Starts [] :=
  ⟨[], [], rfl, by rw [h]; exact .nil, nofun⟩

/-- A tag that cannot be decoded ends the script and gives no start. -/
theorem starts_stop {content : List UInt8} {fault : Markup.Fault}
    (h : Markup.decodeTag content = .error fault) (later : List (List UInt8)) :
    (stop fault : Script α).Starts (content :: later) := by
  refine ⟨[], content :: later, rfl, .nil, ?_⟩
  intro content' later' hsplit
  obtain ⟨rfl, -⟩ := List.cons.inj hsplit
  exact ⟨fault, h, rfl⟩

/-- The tags that are decoded in a script stand before those of what goes on behind it. -/
theorem Starts.bind {script : Script α} {a : α} (hresult : script.result = .ok a)
    {new : List (List UInt8)}
    (hnew : List.Forall₂ Markup.Decodes new (script.events.filterMap Event.start?))
    {next : α → Script β} {tags : List (List UInt8)} (hnext : (next a).Starts tags) :
    (script >>= next).Starts (new ++ tags) := by
  obtain ⟨decoded, undecoded, rfl, hdecoded, hundecoded⟩ := hnext
  rw [bind_of_ok hresult]
  refine ⟨new ++ decoded, undecoded, by rw [List.append_assoc], ?_, hundecoded⟩
  rw [List.filterMap_append]
  exact List.rel_append hnew hdecoded

end Script

namespace Standing

variable {events : List Event} {s : Standing}

/-- A tag is decoded or not. -/
theorem starts_readToken {token : Token} {content : List UInt8}
    (hcontent : token.content? = some content) (s : Standing) :
    (∃ fault, Markup.decodeTag content = .error fault ∧ s.readToken token = .stop fault) ∨
      ∃ start s', Markup.decodeTag content = .ok start ∧ (s.readToken token).result = .ok s' ∧
        (s.readToken token).events.filterMap Event.start? = [start] := by
  cases token with
  | finish => cases hcontent
  | start content' =>
    obtain rfl := Option.some.inj hcontent
    simp only [readToken]
    rcases htag : Markup.decodeTag content' with fault | ⟨name, attributes⟩
    · exact .inl ⟨fault, rfl, rfl⟩
    · exact .inr ⟨(name, attributes), _, rfl, rfl, rfl⟩
  | empty content' =>
    obtain rfl := Option.some.inj hcontent
    simp only [readToken]
    rcases htag : Markup.decodeTag content' with fault | ⟨name, attributes⟩
    · exact .inl ⟨fault, rfl, rfl⟩
    · exact .inr ⟨(name, attributes), _, rfl, rfl, rfl⟩

/-- An end tag starts nothing, and it can always be decoded. -/
theorem starts_readToken_finish (hs : InStep events s) {raw : List UInt8} {lexer : Lexer}
    (hfollows : (Lexer.Step.token (.finish raw) lexer).Follows s.lexer.opened) :
    ∃ s', (readToken (.finish raw) { s with lexer }).result = .ok s' ∧
      (readToken (.finish raw) { s with lexer }).events.filterMap Event.start? = [] := by
  obtain ⟨name, outer, hname, -⟩ := hs.exists_pending hfollows
  exact ⟨_, by simp only [readToken, hname]; rfl, by simp only [readToken, hname]; rfl⟩

/-- The lexer notices the end of a refill as the reader does. -/
theorem lexer_notice (s : Standing) (a : Arrival) : (s.notice a).lexer = s.lexer.notice a := by
  unfold notice Lexer.notice
  split <;> rfl

/-- **One byte** completes at most one tag, whose element is started if the tag can be decoded. -/
theorem starts_arrive (hs : InStep events s) (a : Arrival) (arrivals : List Arrival) :
    (∃ fault, s.arrive a = .stop fault ∧
      (Script.stop fault : Script Standing).Starts (s.lexer.tags (a :: arrivals))) ∨
    ∃ s' new, (s.arrive a).result = .ok s' ∧
      List.Forall₂ Markup.Decodes new ((s.arrive a).events.filterMap Event.start?) ∧
      s.lexer.tags (a :: arrivals) = new ++ s'.lexer.tags arrivals := by
  have hfollows := Lexer.feed_follows (s.notice a).lexer a.byte
  rw [arrive, readByte]
  rw [lexer_notice] at hfollows ⊢
  rcases hfeed : (s.lexer.notice a).feed a.byte with next | ⟨token, next⟩ | ⟨position, fault⟩
  · exact .inr ⟨_, [], rfl, .nil, Lexer.tags_cons_of_quiet hfeed arrivals⟩
  · rw [Lexer.tags_cons_of_token hfeed]
    rw [hfeed, ← lexer_notice] at hfollows
    -- an end tag gives no start, and cannot fail, as the reader is in step with the lexer
    rcases hcontent : token.content? with _ | content
    · obtain ⟨raw, rfl⟩ := token.exists_finish hcontent
      obtain ⟨s', hresult, hstarts⟩ := starts_readToken_finish (hs.notice a) hfollows
      refine .inr ⟨s', [], hresult, ?_, ?_⟩
      · rw [hstarts]
        exact .nil
      · rw [lexer_of_readToken hresult]
        rfl
    · rcases starts_readToken hcontent { s.notice a with lexer := next } with
        ⟨fault, hfault, hstop⟩ | ⟨start, s', htag, hresult, hstarts⟩
      · exact .inl ⟨fault, hstop, Script.starts_stop hfault _⟩
      · refine .inr ⟨s', [content], hresult, ?_, ?_⟩
        · rw [hstarts]
          exact .cons htag .nil
        · rw [lexer_of_readToken hresult]
          rfl
  · rw [Lexer.tags_cons_of_fault hfeed]
    exact .inl ⟨_, rfl, Script.starts_nil rfl⟩

/-- **The bytes of a document** start the elements of its tags. -/
theorem starts_foldlM (hs : InStep events s) (arrivals : List Arrival) :
    (arrivals.foldlM arrive s).Starts (s.lexer.tags arrivals) := by
  induction arrivals generalizing events s with
  | nil => exact Script.starts_nil rfl
  | cons a arrivals ih =>
    rw [List.foldlM_cons]
    rcases starts_arrive hs a arrivals with
      ⟨fault, hstop, hstarts⟩ | ⟨s', new, hresult, hnew, htags⟩
    · rw [hstop, Script.bind_of_error rfl]
      exact hstarts
    · rw [htags]
      exact Script.Starts.bind hresult hnew (ih ((keeps_arrive hs a).inStep s' hresult))

end Standing

/-- **The starts of a document are those of its tags**, up to the first that cannot be decoded. -/
theorem Source.starts_script (source : Source) : source.script.Starts source.tags := by
  obtain ⟨decoded, undecoded, htags, hdecoded, hundecoded⟩ :=
    Standing.starts_foldlM inStep_nil source.arrivals
  refine ⟨decoded, undecoded, htags, ?_, ?_⟩
  · rw [source.events_script]
    exact hdecoded
  · intro content later hsplit
    obtain ⟨fault, hfault, hresult⟩ := hundecoded content later hsplit
    exact ⟨fault, hfault, source.result_script_of_error hresult⟩

/-! ## The elements that a delivery starts -/

/-- The calls that start elements, the failing one included. -/
def Handler.starts {ε σ : Type} (h : Handler ε σ) (source : Source) (s : σ) :
    List (Name × List Attribute) :=
  (h.calls source s).filterMap Event.start?

/-- The element with this name and these attributes is started for the tag with this content. -/
def Handler.StartsFor {ε σ : Type} (h : Handler ε σ) (source : Source) (s : σ)
    (content : List UInt8) (name : Name) (attributes : List Attribute) : Prop :=
  (content, name, attributes) ∈ source.tags.zip (h.starts source s)

/-- What a delivery makes of the bytes of tags. -/
structure KeepsTagBytes {ε σ : Type} (h : Handler ε σ) (source : Source) (s : σ) : Prop where
  contains : Lexer.Contains source.tags source.bytes
  /-- Elements are started for one tag after the other, from the first one on. -/
  length_le : (h.starts source s).length ≤ source.tags.length
  spelled : ∀ content name attributes, h.StartsFor source s content name attributes →
    Markup.Spelled content name attributes
  /-- A tag with other bytes than those of a text starts no element, and if the handler does not
  fail first, the delivery fails for that tag or for one before it. -/
  invalid : ∀ earlier content later, source.tags = earlier ++ content :: later →
    Markup.IsInvalid content →
      (h.starts source s).length ≤ earlier.length ∧
      ((replay h (h.calls source s) s).error? = none →
        ∃ fault, fault.isOfTag = true ∧ (deliver h source s).error? = some (h.fault fault) ∧
          ((h.starts source s).length = earlier.length →
            Markup.decodeTag content = .error fault))
  /-- A delivery that succeeds has started an element for every tag, and all of them are texts. -/
  valid : (deliver h source s).error? = none →
    (h.starts source s).length = source.tags.length ∧
      ∀ content ∈ source.tags, Utf8.IsValid content
  /-- Names that are equal have the same bytes in their tags. -/
  names : ∀ content name attributes content' name' attributes',
    h.StartsFor source s content name attributes →
    h.StartsFor source s content' name' attributes' → name = name' →
      Markup.nameOf content = Markup.nameOf content'
  /-- Attributes with equal names have the same bytes as their keys, and equal values that are
  written without references have the same bytes. -/
  attributes : ∀ content name attributes content' name' attributes' raw a raw' a',
    h.StartsFor source s content name attributes →
    h.StartsFor source s content' name' attributes' →
    (raw, a) ∈ (Markup.RawAttribute.scan content).1.zip attributes →
    (raw', a') ∈ (Markup.RawAttribute.scan content').1.zip attributes' →
      (a.name = a'.name → raw.key = raw'.key) ∧
      (a.value = a'.value → '&'.toUInt8 ∉ raw.value → '&'.toUInt8 ∉ raw'.value →
        raw.value = raw'.value)

section Delivering

variable {ε σ : Type} {h : Handler ε σ} {source : Source} {s : σ}

/-- The end of the document is no start. -/
theorem filterMap_delivered (script : Script Nat) :
    script.delivered.filterMap Event.start? = script.events.filterMap Event.start? := by
  rcases hresult : script.result with fault | elements
  · rw [Script.delivered_of_error hresult]
  · rw [Script.delivered_of_ok hresult, List.filterMap_append]
    exact List.append_nil _

variable (h source s) in
/-- The elements started are decoded from the first tags. -/
theorem exists_decoded : ∃ first rest, source.tags = first ++ rest ∧
    List.Forall₂ Markup.Decodes first (h.starts source s) := by
  obtain ⟨decoded, undecoded, htags, hdecoded, -⟩ := source.starts_script
  have hprefix : h.starts source s <+: source.script.events.filterMap Event.start? := by
    rw [← filterMap_delivered, Handler.starts, Handler.calls_eq]
    exact (h.called_prefix _ s).filterMap Event.start?
  obtain ⟨more, hmore⟩ := hprefix
  rw [← hmore] at hdecoded
  refine ⟨decoded.take (h.starts source s).length,
    decoded.drop (h.starts source s).length ++ undecoded, ?_, ?_⟩
  · rw [← List.append_assoc, List.take_append_drop, htags]
  · exact List.forall₂_take_append _ _ _ hdecoded

/-- The tag that a start is called for is decoded to that start. -/
theorem decodeTag_of_startsFor {content : List UInt8} {name : Name} {attributes : List Attribute}
    (hstarts : h.StartsFor source s content name attributes) :
    Markup.decodeTag content = .ok (name, attributes) := by
  obtain ⟨first, rest, htags, hdecoded⟩ := exists_decoded h source s
  rw [Handler.StartsFor, htags, ← List.append_nil (h.starts source s),
    List.zip_append hdecoded.length_eq, List.zip_nil_right, List.append_nil] at hstarts
  exact List.forall₂_zip hdecoded hstarts

/-- A tag that is not decoded starts no element. -/
theorem length_starts_le {earlier later : List (List UInt8)} {content : List UInt8}
    (htags : source.tags = earlier ++ content :: later)
    (hcontent : ∀ start, Markup.decodeTag content ≠ .ok start) :
    (h.starts source s).length ≤ earlier.length := by
  by_contra! hlt
  have hlength : earlier.length < source.tags.length := by
    rw [htags, List.length_append, List.length_cons]
    omega
  have hzip : earlier.length < (source.tags.zip (h.starts source s)).length := by
    rw [List.length_zip]
    omega
  have hmem := List.getElem_mem hzip
  have hsame : source.tags[earlier.length] = content := by
    simp [htags]
  rw [List.getElem_zip, hsame] at hmem
  exact hcontent _ (decodeTag_of_startsFor hmem)

/-- A handler that takes all its calls is called for every tag that is decoded, and the delivery
fails for the next one. -/
theorem exists_undecoded (hcalls : (replay h (h.calls source s) s).error? = none) :
    ∃ decoded undecoded, source.tags = decoded ++ undecoded ∧
      List.Forall₂ Markup.Decodes decoded (h.starts source s) ∧
      ∀ content later, undecoded = content :: later → ∃ fault,
        Markup.decodeTag content = .error fault ∧
          (deliver h source s).error? = some (h.fault fault) := by
  obtain ⟨decoded, undecoded, htags, hdecoded, hundecoded⟩ := source.starts_script
  refine ⟨decoded, undecoded, htags, ?_, ?_⟩
  · rw [Handler.starts, calls_eq_delivered hcalls, filterMap_delivered]
    exact hdecoded
  · intro content later hsplit
    obtain ⟨fault, hfault, hresult⟩ := hundecoded content later hsplit
    refine ⟨fault, hfault, ?_⟩
    rw [error?_deliver_of_calls hcalls, Script.fault?, hresult, Option.map_some]

/-- Whoever meets a tag that is not decoded fails for it, or for one before it. -/
theorem error?_of_not_decoded {earlier later : List (List UInt8)} {content : List UInt8}
    (htags : source.tags = earlier ++ content :: later)
    (hcontent : ∀ start, Markup.decodeTag content ≠ .ok start)
    (hcalls : (replay h (h.calls source s) s).error? = none) :
    ∃ fault, fault.isOfTag = true ∧ (deliver h source s).error? = some (h.fault fault) ∧
      ((h.starts source s).length = earlier.length →
        Markup.decodeTag content = .error fault) := by
  obtain ⟨decoded, undecoded, hsplit, hdecoded, hundecoded⟩ := exists_undecoded hcalls
  cases undecoded with
  | nil =>
    have hmem : content ∈ decoded := by
      rw [← List.append_nil decoded, ← hsplit, htags]
      exact List.mem_append_right earlier List.mem_cons_self
    obtain ⟨start, htag⟩ := Markup.Decodes.exists_of_mem hdecoded hmem
    exact absurd htag (hcontent start)
  | cons faulty behind =>
    obtain ⟨fault, hfault, herror⟩ := hundecoded faulty behind rfl
    refine ⟨fault, Markup.isOfTag_of_decodeTag hfault, herror, ?_⟩
    intro hlength
    rw [← hdecoded.length_eq] at hlength
    obtain ⟨-, hrest⟩ := List.append_inj (hsplit.symm.trans htags) hlength
    obtain ⟨rfl, -⟩ := List.cons.inj hrest
    exact hfault

/-- In a document without a fault, every tag has its start. -/
theorem starts_of_ok (hok : (deliver h source s).error? = none) :
    List.Forall₂ Markup.Decodes source.tags (h.starts source s) := by
  have hcalls : (replay h (h.calls source s) s).error? = none := by
    rw [error?_deliver, Option.or_eq_none_iff] at hok
    rw [replay_calls, hok.1]
  obtain ⟨decoded, undecoded, htags, hdecoded, hundecoded⟩ := exists_undecoded hcalls
  cases undecoded with
  | nil =>
    rw [htags, List.append_nil]
    exact hdecoded
  | cons content later =>
    obtain ⟨fault, -, herror⟩ := hundecoded content later rfl
    rw [hok] at herror
    cases herror

end Delivering

/-- **Bytes of tags are never replaced or dropped.** -/
theorem deliver_keepsTagBytes {ε σ : Type} (h : Handler ε σ) (source : Source) (s : σ) :
    KeepsTagBytes h source s where
  contains := source.contains_tags
  length_le := by
    obtain ⟨first, rest, htags, hdecoded⟩ := exists_decoded h source s
    rw [htags, ← hdecoded.length_eq, List.length_append]
    omega
  spelled _ _ _ hstarts := Markup.spelled_of_decodeTag (decodeTag_of_startsFor hstarts)
  invalid earlier content later htags hinvalid := by
    have hcontent : ∀ start, Markup.decodeTag content ≠ .ok start := fun start htag =>
      (Markup.spelled_of_decodeTag htag).not_isInvalid hinvalid
    exact ⟨length_starts_le htags hcontent, error?_of_not_decoded htags hcontent⟩
  valid hok := by
    have hstarts := starts_of_ok hok
    refine ⟨hstarts.length_eq.symm, ?_⟩
    intro content hmem
    obtain ⟨⟨name, attributes⟩, htag⟩ := Markup.Decodes.exists_of_mem hstarts hmem
    exact (Markup.spelled_of_decodeTag htag).isValid
  names _ _ _ _ _ _ hstarts hstarts' hname := by
    have hspelled := Markup.spelled_of_decodeTag (decodeTag_of_startsFor hstarts)
    have hspelled' := Markup.spelled_of_decodeTag (decodeTag_of_startsFor hstarts')
    rw [← hspelled.name, ← hspelled'.name, hname]
  attributes _ _ _ _ _ _ raw a raw' a' hstarts hstarts' ha ha' := by
    have hspelled := Markup.spelled_of_decodeTag (decodeTag_of_startsFor hstarts)
    have hspelled' := Markup.spelled_of_decodeTag (decodeTag_of_startsFor hstarts')
    have hgives : raw.Gives a := List.forall₂_zip hspelled.attributes ha
    have hgives' : raw'.Gives a' := List.forall₂_zip hspelled'.attributes ha'
    refine ⟨?_, ?_⟩
    · intro hname
      rw [← hgives.name, ← hgives'.name, hname]
    · intro hvalue hplain hplain'
      rw [← hgives.plain hplain, ← hgives'.plain hplain', hvalue]

/-- The value in the second tag holds a byte of no text, so only the first element is started. -/
example :
    let before := Utf8.encode "<a x='&lt;'><b y='"
    let source := Source.whole (before ++ [0xFF] ++ Utf8.encode "'/></a>")
    source.tags = [Utf8.encode "a x='&lt;'", Utf8.encode "b y='" ++ [0xFF] ++ Utf8.encode "'"] ∧
      Handler.recorder.starts source #[] = [(.ofLocal "a", [⟨.ofLocal "x", "<"⟩])] ∧
      (deliver Handler.recorder source #[]).error? = some (.encoding ⟨0, some 1⟩) := by
  decide +kernel

end IntervalDump
