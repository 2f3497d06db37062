import Mathlib.Data.List.Forall2
import IntervalDump.Markup.Tag
import IntervalDump.Proofs.Text.Encoding
/-!
# The bytes of a tag and what is decoded from them

A tag is taken apart at blanks, at `=`, at quotes and at colons, and each piece is decoded by
itself. **Nothing is lost on the way** (`spelled_of_decodeTag`): a tag that is decoded spells its
name and its attributes (`Spelled`), and then all of its bytes are those of a text
(`Spelled.isValid`). So a tag with other bytes in it is not decoded.

* **The attributes of a tag** (`RawAttribute.Written`) are described by the way in which they are
  written in a row; the scan finds all of them (`RawAttribute.written_of_scan`). What it has read
  since the last attribute is said for each of its places (`RawAttribute.Place.Holds`).
* **References in a value** (`Reference.Unescapes`) stand for single characters, and everything else
  stands for itself (`Reference.unescapes_of_expand`).
-/

namespace IntervalDump

/-! ## Names -/

namespace Name

/-- The colon that splits a name goes back between its two sides. -/
theorem append_of_split_eq_some {raw before behind : List UInt8}
    (h : split raw = (some before, behind)) : before ++ ':'.toUInt8 :: behind = raw := by
  unfold split at h
  rcases hrest : raw.dropWhile (· != ':'.toUInt8) with _ | ⟨colon, rest⟩
  · rw [hrest] at h
    cases h
  · have hcolon : colon = ':'.toUInt8 := by
      have hhead := List.head?_dropWhile_not (· != ':'.toUInt8) raw
      rw [hrest] at hhead
      simpa using hhead
    rw [hrest] at h
    cases h
    subst hcolon
    rw [← hrest, List.takeWhile_append_dropWhile]

/-- A name without a qualifier is all local. -/
theorem eq_of_split_eq_none {raw behind : List UInt8} (h : split raw = (none, behind)) :
    behind = raw := by
  unfold split at h
  rcases hrest : raw.dropWhile (· != ':'.toUInt8) with _ | ⟨colon, rest⟩
  · rw [hrest] at h
    cases h
    rfl
  · rw [hrest] at h
    cases h

/-- **A name is written with the bytes it was read from.** -/
theorem encode_text_of_decode {raw : List UInt8} {name : Name} (h : decode raw = .ok name) :
    Utf8.encode name.text = raw := by
  unfold decode at h
  rcases hsplit : split raw with ⟨_ | before, behind⟩
  · rw [hsplit] at h
    rcases hlocal : Utf8.decode behind with fault | localName
    · simp [hlocal, Except.map] at h
    · simp only [hlocal, Except.map, Except.ok.injEq] at h
      rw [← h, text, Utf8.encode_of_decode hlocal, eq_of_split_eq_none hsplit]
  · rw [hsplit] at h
    rcases hqualifier : Utf8.decode before with fault | qualifier
    · simp [hqualifier, bind, Except.bind] at h
    rcases hlocal : Utf8.decode behind with fault | localName
    · simp [hqualifier, hlocal, bind, Except.bind] at h
    · simp only [hqualifier, hlocal, bind, Except.bind, pure, Except.pure, Except.ok.injEq] at h
      have htext : name.text = qualifier ++ ":" ++ localName := by
        rw [← h]
        rfl
      have hcolon : Utf8.encode ":" = [':'.toUInt8] := by decide
      rw [htext, Utf8.encode_append, Utf8.encode_append, Utf8.encode_of_decode hqualifier,
        Utf8.encode_of_decode hlocal, hcolon, List.append_assoc, List.singleton_append]
      exact append_of_split_eq_some hsplit

end Name

namespace Markup

/-! ## References -/

namespace Reference

/-- What may stand between `&` and `;`, and the character that it means. -/
inductive Means : List Char → Char → Prop
  | named {name : List Char} {c : Char} (h : named? name = some c) : Means name c
  | numbered {text : List Char} {c : Char} (h : numbered text = .ok c) : Means ('#' :: text) c

/-- The text becomes the value if each reference is replaced by the character that it means. -/
inductive Unescapes : List Char → List Char → Prop
  | nil : Unescapes [] []
  | char {c : Char} {text value : List Char} (hc : c ≠ '&') (hrest : Unescapes text value) :
      Unescapes (c :: text) (c :: value)
  | reference {name : List Char} {c : Char} {text value : List Char}
      (hname : ∀ d ∈ name, d ≠ '&' ∧ d ≠ ';') (hc : Means name c) (hrest : Unescapes text value) :
      Unescapes ('&' :: name ++ ';' :: text) (c :: value)

/-- A reference that is resolved means the character. -/
theorem means_of_resolve {start : Nat} {name : List Char} {c : Char}
    (h : resolve start name = .ok c) : Means name c := by
  unfold resolve at h
  split at h
  · next text =>
    rcases hnumbered : numbered text with fault | c'
    · rw [hnumbered] at h
      cases h
    · rw [hnumbered] at h
      cases h
      exact .numbered hnumbered
  · split at h
    · next hnamed =>
      cases h
      exact .named hnamed
    · cases h

/-- The `&` whose `;` is still to come, and the characters behind it. -/
def pendingText : Option (Nat × List Char) → List Char
  | none => []
  | some (_, name) => '&' :: name.reverse

/-- What is still to be read becomes what is put behind the text so far. The induction is on the
text still to be read; a pending reference is read once more. -/
theorem unescapes_of_expandFrom {total position : Nat} {pending? : Option (Nat × List Char)}
    {out text value : List Char} (hpending : ∀ start name, pending? = some (start, name) →
      ∀ d ∈ name, d ≠ '&' ∧ d ≠ ';')
    (h : expandFrom total position pending? out text = .ok value) :
    ∃ behind, Unescapes (pendingText pending? ++ text) behind ∧ value = out.reverse ++ behind := by
  -- the name of a reference that is still open is kept in `pending?`, so the induction carries it
  -- and spells it again in front of the text
  induction text generalizing position pending? out with
  | nil =>
    rcases pending? with _ | ⟨start, name⟩
    · cases h
      exact ⟨[], .nil, (List.append_nil _).symm⟩
    · -- a text does not end inside a reference
      cases h
  | cons c text ih =>
    rcases pending? with _ | ⟨start, name⟩
    · simp only [expandFrom] at h
      split at h
      · next hc =>
        obtain ⟨behind, hbehind, rfl⟩ := ih (by simp) h
        exact ⟨behind, hc ▸ hbehind, rfl⟩
      · next hc =>
        obtain ⟨behind, hbehind, rfl⟩ := ih (by simp) h
        exact ⟨c :: behind, .char hc hbehind, by simp⟩
    · have hname := hpending start name rfl
      simp only [expandFrom] at h
      split at h
      · next hc =>
        split at h
        · next r hresolve =>
          obtain ⟨behind, hbehind, rfl⟩ := ih (by simp) h
          refine ⟨r :: behind, ?_, by simp⟩
          rw [hc]
          exact .reference (by simpa using hname) (means_of_resolve hresolve) hbehind
        · cases h
      · next hsemicolon =>
        split at h
        · cases h
        · next hampersand =>
          obtain ⟨behind, hbehind, rfl⟩ := ih (by simp_all) h
          refine ⟨behind, ?_, rfl⟩
          simpa [pendingText] using hbehind

/-- **A value is the text with its references replaced.** -/
theorem unescapes_of_expand {text value : String} (h : expand text = .ok value) :
    Unescapes text.toList value.toList := by
  unfold expand at h
  rcases hexpand : expandFrom text.utf8ByteSize 0 none [] text.toList with fault | chars
  · rw [hexpand] at h
    cases h
  · rw [hexpand] at h
    cases h
    obtain ⟨behind, hbehind, rfl⟩ := unescapes_of_expandFrom (by simp) hexpand
    rw [String.toList_ofList]
    exact hbehind

/-- A text without `&` stands for itself. -/
theorem Unescapes.eq_of_not_mem {text value : List Char} (h : Unescapes text value)
    (hnone : '&' ∉ text) : value = text := by
  induction h with
  | nil => rfl
  | char _ _ ih => rw [ih (List.not_mem_of_not_mem_cons hnone)]
  | reference => simp at hnone

end Reference

/-! ## The attributes of a tag -/

/-- The bytes are blanks. -/
def AllBlank (bytes : List UInt8) : Prop :=
  ∀ b ∈ bytes, isBlank b = true

/-- No bytes are blank. -/
theorem AllBlank.nil : AllBlank [] :=
  fun _ hb => absurd hb List.not_mem_nil

/-- Blanks with one more are blank. -/
theorem AllBlank.concat {bytes : List UInt8} (h : AllBlank bytes) {b : UInt8}
    (hb : isBlank b = true) : AllBlank (bytes ++ [b]) := by
  simpa [AllBlank, or_imp, forall_and] using ⟨h, hb⟩

namespace RawAttribute

/-- The bytes of a key: the first one is no blank, and the others are neither blanks nor `=`. -/
def IsKey (key : List UInt8) : Prop :=
  ∃ first more, key = first :: more ∧ isBlank first = false ∧
    ∀ b ∈ more, b ≠ '='.toUInt8 ∧ isBlank b = false

/-- The bytes are an attribute as it is written in a tag. -/
inductive WrittenAs (raw : RawAttribute) : List UInt8 → Prop
  | intro {before behind inside : List UInt8} {quote : UInt8} (hbefore : AllBlank before)
      (hkey : IsKey raw.key) (hbehind : AllBlank behind) (hinside : AllBlank inside)
      (hquote : isQuote quote = true) (hvalue : quote ∉ raw.value) :
      WrittenAs raw (before ++ raw.key ++ behind ++ '='.toUInt8 :: inside ++ quote :: raw.value ++
        [quote])

/-- The bytes are these attributes and blanks behind them. -/
inductive Written : List RawAttribute → List UInt8 → Prop
  | nil {bytes : List UInt8} (hbytes : AllBlank bytes) : Written [] bytes
  | cons {raw : RawAttribute} {later : List RawAttribute} {bytes rest : List UInt8}
      (hraw : raw.WrittenAs bytes) (hlater : Written later rest) :
      Written (raw :: later) (bytes ++ rest)

/-- What was read since the last attribute if the next byte stands at a place. -/
inductive Place.Holds : Place → List UInt8 → Prop
  | between {before : List UInt8} (hbefore : AllBlank before) : Holds .between before
  | key {start : Nat} {key before : List UInt8} (hbefore : AllBlank before)
      (hkey : IsKey key.reverse) : Holds (.key start key) (before ++ key.reverse)
  | afterKey {start : Nat} {key before behind : List UInt8} (hbefore : AllBlank before)
      (hkey : IsKey key.reverse) (hbehind : AllBlank behind) :
      Holds (.afterKey start key) (before ++ key.reverse ++ behind)
  | beforeValue {start : Nat} {key before behind inside : List UInt8} (hbefore : AllBlank before)
      (hkey : IsKey key.reverse) (hbehind : AllBlank behind) (hinside : AllBlank inside) :
      Holds (.beforeValue start key) (before ++ key.reverse ++ behind ++ '='.toUInt8 :: inside)
  | value {start : Nat} {key before behind inside value : List UInt8} {quote : UInt8}
      (hbefore : AllBlank before) (hkey : IsKey key.reverse) (hbehind : AllBlank behind)
      (hinside : AllBlank inside) (hquote : isQuote quote = true) (hvalue : quote ∉ value) :
      Holds (.value start key quote value)
        (before ++ key.reverse ++ behind ++ '='.toUInt8 :: inside ++ quote :: value.reverse)

/-- To enter a value leaves the attributes that were found. -/
theorem enterValue_eq {found found' : List RawAttribute} {start : Nat} {key : List UInt8}
    {place : Place} (h : (enterValue found start key).map (found, ·) = .ok (found', place)) :
    found' = found ∧ place = .beforeValue start key := by
  unfold enterValue at h
  split at h
  · cases h
  · cases h
    exact ⟨rfl, rfl⟩

/-- A key with one more character is a key. -/
theorem IsKey.concat {key : List UInt8} (h : IsKey key) {b : UInt8} (hequals : b ≠ '='.toUInt8)
    (hblank : isBlank b = false) : IsKey (key ++ [b]) := by
  obtain ⟨first, more, rfl, hfirst, hmore⟩ := h
  refine ⟨first, more ++ [b], rfl, hfirst, ?_⟩
  simpa [or_imp, forall_and] using ⟨⟨fun b hb => (hmore b hb).1, hequals⟩,
    fun b hb => (hmore b hb).2, hblank⟩

/-- A byte either goes on with an attribute or ends it. -/
theorem feed_holds {found found' : List RawAttribute} {place place' : Place} {position : Nat}
    {b : UInt8} {seen : List UInt8} (hseen : place.Holds seen)
    (h : feed found place position b = .ok (found', place')) :
    found' = found ∧ place'.Holds (seen ++ [b]) ∨
      ∃ raw, found' = raw :: found ∧ place' = .between ∧ raw.WrittenAs (seen ++ [b]) := by
  -- by the place in the tag: what was seen there is known up to the bytes before, so that one byte
  -- more is either added to the part it belongs to or begins the next part
  cases hseen with
  | between hbefore =>
    simp only [feed] at h
    split at h
    · next hblank =>
      cases h
      exact .inl ⟨rfl, .between (hbefore.concat hblank)⟩
    · next hblank =>
      cases h
      exact .inl ⟨rfl, .key hbefore ⟨b, [], rfl, by simpa using hblank, by simp⟩⟩
  | @key start key before hbefore hkey =>
    simp only [feed] at h
    split at h
    · next hequals =>
      obtain ⟨rfl, rfl⟩ := enterValue_eq h
      have hnext : (Place.beforeValue start key).Holds (before ++ key.reverse ++ [] ++ [b]) := by
        rw [hequals]
        exact .beforeValue hbefore hkey AllBlank.nil AllBlank.nil
      exact .inl ⟨rfl, by simpa using hnext⟩
    · next hequals =>
      split at h
      · next hblank =>
        cases h
        exact .inl ⟨rfl, .afterKey hbefore hkey (AllBlank.nil.concat hblank)⟩
      · next hblank =>
        cases h
        have hlonger : IsKey (b :: key).reverse := by
          simpa using hkey.concat hequals (by simpa using hblank)
        have hnext : (Place.key start (b :: key)).Holds (before ++ (b :: key).reverse) :=
          .key hbefore hlonger
        exact .inl ⟨rfl, by simpa using hnext⟩
  | @afterKey start key before behind hbefore hkey hbehind =>
    simp only [feed] at h
    split at h
    · next hblank =>
      cases h
      have hnext : (Place.afterKey start key).Holds (before ++ key.reverse ++ (behind ++ [b])) :=
        .afterKey hbefore hkey (hbehind.concat hblank)
      exact .inl ⟨rfl, by simpa using hnext⟩
    · split at h
      · next hequals =>
        obtain ⟨rfl, rfl⟩ := enterValue_eq h
        rw [hequals]
        exact .inl ⟨rfl, .beforeValue hbefore hkey hbehind AllBlank.nil⟩
      · cases h
  | @beforeValue start key before behind inside hbefore hkey hbehind hinside =>
    simp only [feed] at h
    split at h
    · next hblank =>
      cases h
      have hnext : (Place.beforeValue start key).Holds
          (before ++ key.reverse ++ behind ++ '='.toUInt8 :: (inside ++ [b])) :=
        .beforeValue hbefore hkey hbehind (hinside.concat hblank)
      exact .inl ⟨rfl, by simpa using hnext⟩
    · split at h
      · next hquote =>
        cases h
        exact .inl ⟨rfl, .value hbefore hkey hbehind hinside hquote List.not_mem_nil⟩
      · cases h
  | @value start key before behind inside value quote hbefore hkey hbehind hinside hquote hvalue =>
    simp only [feed] at h
    split at h
    · next hb =>
      cases h
      rw [hb]
      -- the closing quotation mark is the only byte that ends an attribute
      exact .inr ⟨_, rfl, rfl, .intro hbefore hkey hbehind hinside hquote (by simpa using hvalue)⟩
    · next hb =>
      cases h
      have hlonger : quote ∉ b :: value := by simp [hvalue, Ne.symm hb]
      have hnext : (Place.value start key quote (b :: value)).Holds (before ++ key.reverse ++
          behind ++ '='.toUInt8 :: inside ++ quote :: (b :: value).reverse) :=
        .value hbefore hkey hbehind hinside hquote hlonger
      exact .inl ⟨rfl, by simpa using hnext⟩

/-- **The scan finds the attributes that are written there.** -/
theorem written_of_scanFrom {found raws : List RawAttribute} {place : Place} {position : Nat}
    {seen bytes : List UInt8} (hseen : place.Holds seen)
    (h : scanFrom found place position bytes = (raws, none)) :
    ∃ later, raws = found.reverse ++ later ∧ Written later (seen ++ bytes) := by
  induction bytes generalizing found place position seen with
  | nil =>
    rw [scanFrom, Prod.mk.injEq] at h
    obtain ⟨rfl, hend⟩ := h
    cases hseen with
    | between hbefore => exact ⟨[], by simp, .nil (by simpa using hbefore)⟩
    | key => cases hend
    | afterKey => cases hend
    | beforeValue => cases hend
    | value => cases hend
  | cons b bytes ih =>
    rcases hfeed : feed found place position b with fault | ⟨found', place'⟩
    · rw [scanFrom, hfeed] at h
      cases h
    · rw [scanFrom, hfeed] at h
      rcases feed_holds hseen hfeed with ⟨rfl, hnext⟩ | ⟨raw, rfl, rfl, hraw⟩
      · obtain ⟨later, rfl, hlater⟩ := ih hnext h
        exact ⟨later, rfl, by simpa using hlater⟩
      · obtain ⟨later, rfl, hlater⟩ := ih (.between AllBlank.nil) h
        exact ⟨raw :: later, by simp, by simpa using Written.cons hraw hlater⟩

/-- **What a scan without a fault finds is written in the tag.** -/
theorem written_of_scan {content : List UInt8} {raws : List RawAttribute}
    (h : scan content = (raws, none)) : Written raws (behindName content) := by
  obtain ⟨later, rfl, hlater⟩ := written_of_scanFrom (.between AllBlank.nil) h
  exact hlater

end RawAttribute

/-! ## What decoding a tag needs -/

/-- What goes on with a result had one. -/
theorem exists_of_bind_eq_ok {ε α β : Type} {x : Except ε α} {f : α → Except ε β} {b : β}
    (h : x >>= f = .ok b) : ∃ a, x = .ok a ∧ f a = .ok b := by
  cases x with
  | error => cases h
  | ok a => exact ⟨a, rfl, h⟩

/-- A result stays the same when errors are converted. -/
theorem eq_ok_of_mapError {ε ε' α : Type} {x : Except ε α} {f : ε → ε'} {a : α}
    (h : x.mapError f = .ok a) : x = .ok a := by
  cases x with
  | error => cases h
  | ok b =>
    cases h
    rfl

/-- Each result of a list is that of its entry. -/
theorem forall₂_of_mapM {ε α β : Type} {f : α → Except ε β} {entries : List α} {results : List β}
    (h : entries.mapM f = .ok results) :
    List.Forall₂ (fun entry result => f entry = .ok result) entries results := by
  induction entries generalizing results with
  | nil =>
    cases h
    exact .nil
  | cons entry entries ih =>
    rw [List.mapM_cons] at h
    obtain ⟨result, hresult, h⟩ := exists_of_bind_eq_ok h
    obtain ⟨results', hresults, h⟩ := exists_of_bind_eq_ok h
    cases h
    exact .cons hresult (ih hresults)

/-- What is decoded of an attribute is decoded of its key and its value. -/
theorem RawAttribute.decode_ok {raw : RawAttribute} {a : Attribute} (h : raw.decode = .ok a) :
    ∃ text, Utf8.decode raw.value = .ok text ∧ Reference.expand text = .ok a.value ∧
      Name.decode raw.key = .ok a.name := by
  unfold RawAttribute.decode at h
  obtain ⟨text, htext, h⟩ := exists_of_bind_eq_ok h
  obtain ⟨value, hvalue, h⟩ := exists_of_bind_eq_ok h
  obtain ⟨name, hname, h⟩ := exists_of_bind_eq_ok h
  cases h
  exact ⟨text, eq_ok_of_mapError htext, eq_ok_of_mapError hvalue, eq_ok_of_mapError hname⟩

/-- A tag is decoded if its name is, its attributes are, and no mistake is in the latter. -/
theorem decodeTag_ok {content : List UInt8} {name : Name} {attributes : List Attribute}
    (h : decodeTag content = .ok (name, attributes)) :
    Name.decode (nameOf content) = .ok name ∧ (RawAttribute.scan content).2 = none ∧
      List.Forall₂ (fun raw a => RawAttribute.decode raw = .ok a) (RawAttribute.scan content).1
        attributes := by
  unfold decodeTag at h
  obtain ⟨name', hname, h⟩ := exists_of_bind_eq_ok h
  obtain ⟨attributes', hattributes, h⟩ := exists_of_bind_eq_ok h
  split at h
  · cases h
  · next hnone =>
    cases h
    exact ⟨eq_ok_of_mapError hname, hnone, forall₂_of_mapM hattributes⟩

/-! ## What a tag spells -/

/-- The attribute has the name and the value that are written in the bytes. -/
structure RawAttribute.Gives (raw : RawAttribute) (a : Attribute) : Prop where
  name : Utf8.encode a.name.text = raw.key
  value : ∃ text, Utf8.encode text = raw.value ∧
    Reference.Unescapes text.toList a.value.toList
  /-- Without references, the value has the very bytes that are written. -/
  plain : '&'.toUInt8 ∉ raw.value → Utf8.encode a.value = raw.value

/-- An attribute is given by a key and a value that are valid. -/
theorem RawAttribute.Gives.isValid {raw : RawAttribute} {a : Attribute} (h : raw.Gives a) :
    Utf8.IsValid raw.key ∧ Utf8.IsValid raw.value := by
  obtain ⟨text, htext, -⟩ := h.value
  exact ⟨⟨_, h.name⟩, text, htext⟩

/-- A tag with this content has this name and these attributes. -/
structure Spelled (content : List UInt8) (name : Name) (attributes : List Attribute) : Prop where
  name : Utf8.encode name.text = nameOf content
  /-- Behind the name there is nothing but attributes and blanks. -/
  written : RawAttribute.Written (RawAttribute.scan content).1 (behindName content)
  attributes : List.Forall₂ RawAttribute.Gives (RawAttribute.scan content).1 attributes

/-- An attribute that is decoded is given. -/
theorem RawAttribute.gives_of_decode {raw : RawAttribute} {a : Attribute}
    (h : raw.decode = .ok a) : raw.Gives a := by
  obtain ⟨text, htext, hvalue, hname⟩ := RawAttribute.decode_ok h
  have hbytes := Utf8.encode_of_decode htext
  have hunescapes := Reference.unescapes_of_expand hvalue
  refine ⟨Name.encode_text_of_decode hname, ⟨text, hbytes, hunescapes⟩, ?_⟩
  intro hnone
  rw [← hbytes, Utf8.encode_eq] at hnone
  have hsame := hunescapes.eq_of_not_mem (mt (Utf8.mem_encodeChars (by decide)) hnone)
  rw [Utf8.encode_eq, hsame, ← Utf8.encode_eq, hbytes]

/-- **A tag that is decoded spells what is decoded from it.** -/
theorem spelled_of_decodeTag {content : List UInt8} {name : Name} {attributes : List Attribute}
    (h : decodeTag content = .ok (name, attributes)) : Spelled content name attributes := by
  obtain ⟨hname, hnone, hattributes⟩ := decodeTag_ok h
  refine ⟨Name.encode_text_of_decode hname, ?_, ?_⟩
  · exact RawAttribute.written_of_scan (Prod.ext rfl hnone)
  · exact hattributes.imp fun _ _ => RawAttribute.gives_of_decode

/-! ## Tags that are not text -/

/-- A blank is a character of one byte. -/
theorem toNat_lt_of_isBlank {b : UInt8} (h : isBlank b = true) : b.toNat < 128 := by
  simp only [isBlank, Bool.or_eq_true, beq_iff_eq] at h
  rcases h with ((rfl | rfl) | rfl) | rfl <;> decide

/-- Blanks are valid. -/
theorem AllBlank.isValid {bytes : List UInt8} (h : AllBlank bytes) : Utf8.IsValid bytes :=
  Utf8.isValid_of_ascii fun b hb => toNat_lt_of_isBlank (h b hb)

/-- A quotation mark is a character of one byte. -/
theorem toNat_lt_of_isQuote {b : UInt8} (h : isQuote b = true) : b.toNat < 128 := by
  simp only [isQuote, Bool.or_eq_true, beq_iff_eq] at h
  rcases h with rfl | rfl <;> decide

/-- What an attribute is written as is valid if its key and value are. -/
theorem RawAttribute.WrittenAs.isValid {raw : RawAttribute} {bytes : List UInt8}
    (h : raw.WrittenAs bytes) (hkey : Utf8.IsValid raw.key) (hvalue : Utf8.IsValid raw.value) :
    Utf8.IsValid bytes := by
  cases h with
  | @intro before behind inside quote hbefore _ hbehind hinside hquote _ =>
    have hequals : Utf8.IsValid ['='.toUInt8] := Utf8.isValid_singleton (by decide)
    have hquoted : Utf8.IsValid [quote] := Utf8.isValid_singleton (toNat_lt_of_isQuote hquote)
    have hname := (hbefore.isValid.append hkey).append hbehind.isValid
    have hall := ((hname.append (hequals.append hinside.isValid)).append
      (hquoted.append hvalue)).append hquoted
    simpa using hall

/-- What several attributes are written as is valid too. -/
theorem RawAttribute.Written.isValid {raws : List RawAttribute} {bytes : List UInt8}
    (h : Written raws bytes)
    (hraws : ∀ raw ∈ raws, Utf8.IsValid raw.key ∧ Utf8.IsValid raw.value) :
    Utf8.IsValid bytes := by
  induction h with
  | nil hbytes => exact hbytes.isValid
  | cons hraw _ ih =>
    obtain ⟨⟨hkey, hvalue⟩, hlater⟩ := List.forall_mem_cons.mp hraws
    exact (hraw.isValid hkey hvalue).append (ih hlater)

/-- Somewhere in a tag with this content there are bytes that are not those of a text: in its name,
in the key or the value of an attribute, or in what the scan could not read. -/
def IsInvalid (content : List UInt8) : Prop :=
  ¬ Utf8.IsValid (nameOf content) ∨ ¬ Utf8.IsValid content ∨
    ∃ raw ∈ (RawAttribute.scan content).1, ¬ Utf8.IsValid raw.key ∨ ¬ Utf8.IsValid raw.value

/-- The keys and values in a tag that is spelled are valid. -/
theorem Spelled.isValid_attributes {content : List UInt8} {name : Name}
    {attributes : List Attribute} (h : Spelled content name attributes) :
    ∀ raw ∈ (RawAttribute.scan content).1, Utf8.IsValid raw.key ∧ Utf8.IsValid raw.value := by
  have hgives := h.attributes.imp fun _ _ (hgives : RawAttribute.Gives _ _) =>
    And.intro hgives.isValid hgives
  exact (List.forall₂_and_left _ _ |>.mp hgives).1

/-- **A tag that spells something is a text.** -/
theorem Spelled.isValid {content : List UInt8} {name : Name} {attributes : List Attribute}
    (h : Spelled content name attributes) : Utf8.IsValid content := by
  have hsplit : nameOf content ++ behindName content = content := List.takeWhile_append_dropWhile
  have hname : Utf8.IsValid (nameOf content) := ⟨_, h.name⟩
  rw [← hsplit]
  exact hname.append (h.written.isValid h.isValid_attributes)

/-- **A tag that is spelled is not invalid.** -/
theorem Spelled.not_isInvalid {content : List UInt8} {name : Name} {attributes : List Attribute}
    (h : Spelled content name attributes) : ¬ IsInvalid content := by
  rintro (hinvalid | hinvalid | ⟨raw, hraw, hinvalid | hinvalid⟩)
  · exact hinvalid ⟨_, h.name⟩
  · exact hinvalid h.isValid
  · exact hinvalid (h.isValid_attributes raw hraw).1
  · exact hinvalid (h.isValid_attributes raw hraw).2

/-! ## Faults of a tag -/

/-- The fault is in the bytes of a tag: in their encoding, in the shape of an attribute, or in a
reference. -/
def Fault.isOfTag : Fault → Bool
  | .encoding _ | .attribute _ | .reference _ => true
  | _ => false

/-- An error comes from the first part or from what goes on. -/
theorem exists_of_bind_eq_error {ε α β : Type} {x : Except ε α} {f : α → Except ε β} {error : ε}
    (h : x >>= f = .error error) : x = .error error ∨ ∃ a, f a = .error error := by
  cases x with
  | error earlier =>
    cases h
    exact .inl rfl
  | ok a => exact .inr ⟨a, h⟩

/-- An error that was converted was one before. -/
theorem exists_of_mapError_eq_error {ε ε' α : Type} {x : Except ε α} {f : ε → ε'} {error : ε'}
    (h : x.mapError f = .error error) : ∃ earlier, error = f earlier := by
  cases x with
  | error earlier =>
    cases h
    exact ⟨earlier, rfl⟩
  | ok a => cases h

variable {fault : Fault}

/-- An attribute that cannot be decoded is a fault of the tag. -/
theorem RawAttribute.isOfTag_of_decode {raw : RawAttribute} (h : raw.decode = .error fault) :
    fault.isOfTag = true := by
  unfold RawAttribute.decode at h
  rcases exists_of_bind_eq_error h with h | ⟨text, h⟩
  · obtain ⟨_, rfl⟩ := exists_of_mapError_eq_error h
    rfl
  rcases exists_of_bind_eq_error h with h | ⟨value, h⟩
  · obtain ⟨_, rfl⟩ := exists_of_mapError_eq_error h
    rfl
  rcases exists_of_bind_eq_error h with h | ⟨name, h⟩
  · obtain ⟨_, rfl⟩ := exists_of_mapError_eq_error h
    rfl
  · cases h

/-- If one of several attributes cannot be decoded, this is a fault of the tag. -/
theorem isOfTag_of_mapM {raws : List RawAttribute}
    (h : raws.mapM RawAttribute.decode = .error fault) : fault.isOfTag = true := by
  induction raws with
  | nil => cases h
  | cons first later ih =>
    rw [List.mapM_cons] at h
    rcases exists_of_bind_eq_error h with h | ⟨decoded, h⟩
    · exact RawAttribute.isOfTag_of_decode h
    rcases exists_of_bind_eq_error h with h | ⟨attributes, h⟩
    · exact ih h
    · cases h

/-- A tag that is not decoded has such a fault. -/
theorem isOfTag_of_decodeTag {content : List UInt8} (h : decodeTag content = .error fault) :
    fault.isOfTag = true := by
  unfold decodeTag at h
  rcases hscan : RawAttribute.scan content with ⟨raws, attributeFault?⟩
  simp only [hscan] at h
  rcases exists_of_bind_eq_error h with h | ⟨name, h⟩
  · obtain ⟨_, rfl⟩ := exists_of_mapError_eq_error h
    rfl
  rcases exists_of_bind_eq_error h with h | ⟨attributes, h⟩
  · exact isOfTag_of_mapM h
  · cases attributeFault? <;> cases h
    rfl

end Markup

end IntervalDump
