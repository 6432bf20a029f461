import BenchTables.Proofs.Csv.RoundTrip

/-!
# Tables and the texts that encode them

The same table can be written in many ways: cells bare or in quotes, white space around them, line
ends of three kinds, empty lines anywhere.  `CellEncoding`, `RecordEncoding` and `TableEncoding` say
which texts encode a cell, a record and the records of a table.  The reader gives the table back
from every text that encodes it, with or without a byte order mark in front (`read_of_encoding`).
-/

namespace BenchTables.Csv

/-! ## Encodings -/

/-- A character that a cell cannot hold as it stands. -/
def isSpecial (c : Char) : Bool :=
  c = '"' || c = ',' || c = '\n' || c = '\r'

/-- White space that ends no line. -/
def IsPadding (pad : String) : Prop :=
  ∀ c ∈ pad.toList, Text.isBlank c = true ∧ c ≠ '\n' ∧ c ≠ '\r'

-- The characters of the pad are looked at, not all characters there are.
instance (pad : String) : Decidable (IsPadding pad) :=
  List.decidableBAll _ pad.toList

def doubledQuotes (cell : String) : String :=
  String.ofList (cell.toList.flatMap fun c => if c = '"' then ['"', '"'] else [c])

/-- The texts that a cell can be written as. -/
inductive CellEncoding : (written cell : String) → Prop where
  | bare {before cell after : String} (hbefore : IsPadding before) (hafter : IsPadding after)
      (hcell : cell.toList.any isSpecial = false) : CellEncoding (before ++ cell ++ after) cell
  | quoted {before cell after tail : String} (hbefore : before.toList.all Text.isBlank = true)
      (hafter : after.toList.all Text.isBlank = true) (htail : IsPadding tail) :
      CellEncoding ("\"" ++ doubledQuotes (before ++ cell ++ after) ++ "\"" ++ tail) cell

/-- The texts that a record can be written as, without its line end. -/
inductive RecordEncoding : (written : String) → (cells : List String) → Prop where
  | last {w cell : String} (h : CellEncoding w cell) : RecordEncoding w [cell]
  | cons {w cell ws : String} {cells : List String} (h : CellEncoding w cell)
      (hrest : RecordEncoding ws cells) : RecordEncoding (w ++ "," ++ ws) (cell :: cells)

/-- The texts that records can be written as.  Lines may be empty, a record is not, and the last of
them may lack its line end. -/
inductive TableEncoding : (written : String) → (records : List (List String)) → Prop where
  | nil : TableEncoding "" []
  | emptyLine {ending w : String} {records : List (List String)}
      (hending : ending ∈ ["\n", "\r\n", "\r"]) (hrest : TableEncoding w records) :
      TableEncoding (ending ++ w) records
  | unended {w : String} {cells : List String} (h : RecordEncoding w cells) (hne : w ≠ "") :
      TableEncoding w [cells]
  | record {w ending ws : String} {cells : List String} {records : List (List String)}
      (h : RecordEncoding w cells) (hne : w ≠ "") (hending : ending ∈ ["\n", "\r\n", "\r"])
      (hrest : TableEncoding ws records) : TableEncoding (w ++ ending ++ ws) (cells :: records)

/-! ## Characters and bytes -/

theorem encode_append (s t : String) : Text.encode (s ++ t) = Text.encode s ++ Text.encode t := by
  rw [Text.encode, String.toList_append, Text.encodeChars_append]
  rfl

theorem encode_ne_nil {s : String} (h : s ≠ "") : Text.encode s ≠ [] := by
  obtain ⟨c, cs, hs⟩ := List.exists_cons_of_ne_nil (mt String.toList_eq_nil_iff.mp h)
  rw [Text.encode, hs, Text.encodeChars_cons]
  exact List.append_ne_nil_of_left_ne_nil String.utf8EncodeChar_ne_nil _

theorem kind_plain_of_ne {b : UInt8} (hquote : b ≠ quote) (hcomma : b ≠ comma) (hlf : b ≠ lineFeed)
    (hcr : b ≠ carriageReturn) : ByteKind.of b = .plain := by
  rw [ByteKind.of, if_neg hquote, if_neg hcomma, if_neg (not_or.mpr ⟨hlf, hcr⟩)]

/-- A byte below `0x80` is in the encoding of its own character only. -/
theorem eq_of_mem_utf8EncodeChar {c d : Char} {b : UInt8} (hd : d.toNat < 0x80)
    (hb : b.toNat = d.toNat) (h : b ∈ String.utf8EncodeChar c) : c = d := by
  rcases Text.toNat_of_mem_utf8EncodeChar h with heq | hhigh
  · exact Char.toNat_inj.mp (heq.symm.trans hb)
  · omega

theorem kind_plain_of_mem {c : Char} {b : UInt8} (hc : isSpecial c = false)
    (h : b ∈ String.utf8EncodeChar c) : ByteKind.of b = .plain := by
  have hne : ∀ d : Char, d.toNat < 0x80 → b.toNat = d.toNat → isSpecial d = true → False := by
    intro d hd hb hspecial
    rw [← eq_of_mem_utf8EncodeChar hd hb h, hc] at hspecial
    cases hspecial
  apply kind_plain_of_ne
  · rintro rfl
    exact hne '"' (by decide) rfl rfl
  · rintro rfl
    exact hne ',' (by decide) rfl rfl
  · rintro rfl
    exact hne '\n' (by decide) rfl rfl
  · rintro rfl
    exact hne '\r' (by decide) rfl rfl

theorem kind_plain_of_mem_encode {s : String} (hs : ∀ c ∈ s.toList, isSpecial c = false) :
    ∀ b ∈ Text.encode s, ByteKind.of b = .plain := by
  intro b hb
  obtain ⟨c, hc, hmem⟩ := List.mem_flatMap.mp hb
  exact kind_plain_of_mem (hs c hc) hmem

theorem doubleQuotes_append (bs ds : List UInt8) :
    doubleQuotes (bs ++ ds) = doubleQuotes bs ++ doubleQuotes ds :=
  List.flatMap_append

theorem doubleQuotes_of_not_mem {bytes : List UInt8} (h : quote ∉ bytes) :
    doubleQuotes bytes = bytes := by
  induction bytes with
  | nil => rfl
  | cons b rest ih =>
    obtain ⟨hb, hrest⟩ := not_or.mp (mt List.mem_cons.mpr h)
    have htail := ih hrest
    rw [doubleQuotes] at htail ⊢
    rw [List.flatMap_cons, htail, if_neg (Ne.symm hb)]
    rfl

/-- Doubling the quotes of a text doubles those of its bytes. -/
theorem encode_doubledQuotes (cell : String) :
    Text.encode (doubledQuotes cell) = doubleQuotes (Text.encode cell) := by
  unfold doubledQuotes Text.encode
  rw [String.toList_ofList]
  induction cell.toList with
  | nil => rfl
  | cons c rest ih =>
    rw [List.flatMap_cons, Text.encodeChars_append, ih, Text.encodeChars_cons, doubleQuotes_append]
    congr 1
    split
    next hc =>
      subst hc
      rfl
    next hc =>
      rw [Text.encodeChars_cons, Text.encodeChars_nil, List.append_nil, doubleQuotes_of_not_mem]
      intro hmem
      exact hc (eq_of_mem_utf8EncodeChar (by decide) rfl hmem)

theorem isSpecial_of_isBlank {c : Char} (hblank : Text.isBlank c = true) (hlf : c ≠ '\n')
    (hcr : c ≠ '\r') : isSpecial c = false := by
  by_contra hspecial
  rw [Bool.not_eq_false] at hspecial
  simp only [isSpecial, Bool.or_eq_true, decide_eq_true_eq] at hspecial
  rcases hspecial with ((rfl | rfl) | rfl) | rfl
  · exact absurd hblank (by decide)
  · exact absurd hblank (by decide)
  · exact hlf rfl
  · exact hcr rfl

theorem IsPadding.isSpecial {pad : String} (h : IsPadding pad) :
    ∀ c ∈ pad.toList, isSpecial c = false :=
  fun c hc => isSpecial_of_isBlank (h c hc).1 (h c hc).2.1 (h c hc).2.2

theorem IsPadding.isBlank {pad : String} (h : IsPadding pad) :
    ∀ c ∈ pad.toList, Text.isBlank c = true :=
  fun c hc => (h c hc).1

/-! ## Encodings and their bytes -/

/-- A cell that is encoded is what the bytes hold, but for white space around it. -/
theorem CellEncoding.form {w cell : String} (h : CellEncoding w cell) :
    ∃ content, CellForm (Text.encode w) (Text.encode content) ∧
      Text.trim content = Text.trim cell := by
  cases h with
  | bare hbefore hafter hcell =>
    refine ⟨_, CellForm.bare _ (kind_plain_of_mem_encode ?_), ?_⟩
    · intro c hc
      rw [String.toList_append, String.toList_append, List.mem_append, List.mem_append] at hc
      rcases hc with (hc | hc) | hc
      · exact hbefore.isSpecial c hc
      · simpa using List.any_eq_false.mp hcell c hc
      · exact hafter.isSpecial c hc
    · rw [Text.trim_append_right hafter.isBlank, Text.trim_append_left hbefore.isBlank]
  | @quoted before _ after tail hbefore hafter htail =>
    -- What follows the closing quote belongs to the cell until it is trimmed.
    refine ⟨before ++ cell ++ after ++ tail, ?_, ?_⟩
    · have hbytes : Text.encode ("\"" ++ doubledQuotes (before ++ cell ++ after) ++ "\"" ++ tail) =
          quote :: (doubleQuotes (Text.encode (before ++ cell ++ after)) ++
            quote :: Text.encode tail) := by
        rw [encode_append, encode_append, encode_append, encode_doubledQuotes, List.append_assoc,
          List.append_assoc]
        rfl
      rw [hbytes, encode_append _ tail]
      exact CellForm.quoted _ _ (kind_plain_of_mem_encode htail.isSpecial)
    · rw [Text.trim_append_right htail.isBlank,
        Text.trim_append_right (List.all_eq_true.mp hafter),
        Text.trim_append_left (List.all_eq_true.mp hbefore)]

theorem RecordEncoding.form {w : String} {cells : List String} (h : RecordEncoding w cells) :
    ∃ contents : List String, RecordForm (Text.encode w) (contents.map Text.encode) ∧
      contents.map Text.trim = cells.map Text.trim := by
  induction h with
  | last hcell =>
    obtain ⟨content, hform, htrim⟩ := hcell.form
    refine ⟨[content], RecordForm.last hform, ?_⟩
    rw [List.map_singleton, List.map_singleton, htrim]
  | @cons w cell ws cells hcell _ ih =>
    obtain ⟨content, hform, htrim⟩ := hcell.form
    obtain ⟨contents, hforms, htrims⟩ := ih
    refine ⟨content :: contents, ?_, ?_⟩
    · have hbytes : Text.encode (w ++ "," ++ ws) = Text.encode w ++ comma :: Text.encode ws := by
        rw [encode_append, encode_append, List.append_assoc]
        rfl
      rw [hbytes]
      exact RecordForm.cons hform hforms
    · rw [List.map_cons, List.map_cons, htrim, htrims]

/-- A line end is one byte, or a byte and an empty line. -/
theorem lineEnd_bytes {ending : String} (h : ending ∈ ["\n", "\r\n", "\r"]) :
    ∃ b more, Text.encode ending = b :: more ∧ ByteKind.of b = .lineEnd ∧
      ∀ b ∈ more, ByteKind.of b = .lineEnd := by
  simp only [List.mem_cons, List.not_mem_nil, or_false] at h
  rcases h with rfl | rfl | rfl
  · exact ⟨lineFeed, [], rfl, rfl, List.forall_mem_nil _⟩
  · exact ⟨carriageReturn, [lineFeed], rfl, rfl, List.forall_mem_singleton.mpr rfl⟩
  · exact ⟨carriageReturn, [], rfl, rfl, List.forall_mem_nil _⟩

theorem TextForm.blanks {w : List UInt8} {rs : List (List (List UInt8))} (h : TextForm w rs)
    {bytes : List UInt8} (hbytes : ∀ b ∈ bytes, ByteKind.of b = .lineEnd) :
    TextForm (bytes ++ w) rs := by
  induction bytes with
  | nil => exact h
  | cons b rest ih =>
    exact .blank (hbytes b List.mem_cons_self) (ih fun c hc => hbytes c (List.mem_cons_of_mem _ hc))

theorem TableEncoding.form {w : String} {records : List (List String)}
    (h : TableEncoding w records) :
    ∃ contents : List (List String),
      TextForm (Text.encode w) (contents.map (·.map Text.encode)) ∧
        contents.map (·.map Text.trim) = records.map (·.map Text.trim) := by
  induction h with
  | nil => exact ⟨[], .nil, rfl⟩
  | emptyLine hending _ ih =>
    obtain ⟨contents, hform, htrim⟩ := ih
    obtain ⟨b, more, hbytes, hb, hmore⟩ := lineEnd_bytes hending
    refine ⟨contents, ?_, htrim⟩
    rw [encode_append, hbytes]
    exact .blank hb (hform.blanks hmore)
  | unended hrecord hne =>
    obtain ⟨content, hform, htrim⟩ := hrecord.form
    refine ⟨[content], .unended hform (encode_ne_nil hne), ?_⟩
    rw [List.map_singleton, List.map_singleton, htrim]
  | record hrecord hne hending _ ih =>
    obtain ⟨content, hrecordForm, htrim⟩ := hrecord.form
    obtain ⟨contents, hform, htrims⟩ := ih
    obtain ⟨b, more, hbytes, hb, hmore⟩ := lineEnd_bytes hending
    refine ⟨content :: contents, ?_, ?_⟩
    · rw [encode_append, encode_append, hbytes, List.append_assoc, List.cons_append]
      exact .record hrecordForm (encode_ne_nil hne) hb (hform.blanks hmore)
    · rw [List.map_cons, List.map_cons, htrim, htrims]

/-! ## Reading -/

/-- The character that is written as a byte order mark. -/
def markCharacter : Char := '\uFEFF'

/-- The bytes of a text begin with a mark where the text does. -/
theorem byteOrderMark_prefix_encode {text : String} (h : Text.byteOrderMark <+: Text.encode text) :
    text.toList.head? = some markCharacter := by
  obtain ⟨rest, hrest⟩ := h
  have hmark : Text.headChar? (Text.encode text) = some markCharacter := by
    rw [← hrest]
    exact Text.headChar?_utf8EncodeChar_append markCharacter rest
  unfold Text.encode at hmark hrest
  cases hchars : text.toList with
  | nil =>
    rw [hchars] at hrest
    cases hrest
  | cons c cs =>
    rw [hchars, Text.encodeChars_cons, Text.headChar?_utf8EncodeChar_append] at hmark
    exact hmark

/-- The reader gives the table of every text that encodes it and begins with no mark of its own,
with or without a mark in front. -/
theorem read_of_encoding {text : String} {header : List String} {records : List (List String)}
    (h : TableEncoding text (header :: records))
    (hstart : text.toList.head? ≠ some markCharacter)
    (hlen : ∀ cells ∈ records, cells.length = header.length)
    (htrim : ∀ cells ∈ header :: records, cells.map Text.trim = cells) {mark : List UInt8}
    (hmark : mark = [] ∨ mark = Text.byteOrderMark) :
    ∃ doc, Document.read (mark ++ Text.encode text) = .ok doc ∧ doc.header = header ∧
      doc.records.map (·.map Record.cells) = records.map .ok := by
  obtain ⟨contents, hform, hcontents⟩ := h.form
  obtain ⟨content, others, rfl, hcontent, hothers⟩ := List.map_eq_cons_iff.mp hcontents
  have htrimmed : records.map (·.map Text.trim) = records := by
    rw [List.map_congr_left fun cells hcells => htrim cells (List.mem_cons_of_mem _ hcells),
      List.map_id']
  rw [htrimmed] at hothers
  replace hcontent : content.map Text.trim = header :=
    hcontent.trans (htrim header List.mem_cons_self)
  -- A mark in front is dropped, and behind it or without it the same cells are cut.
  have hcut : (cut (mark ++ Text.encode text)).map RawRecord.cells =
      (content :: others).map (·.map Text.encode) := by
    rcases hmark with rfl | rfl
    · exact cells_cut hform fun hprefix => hstart (byteOrderMark_prefix_encode hprefix)
    · exact cells_cut_marked hform
  have hwidth : ∀ texts ∈ others, texts.length = content.length := by
    intro texts htexts
    have hcells := hlen (texts.map Text.trim) (hothers ▸ List.mem_map_of_mem htexts)
    rwa [← hcontent, List.length_map, List.length_map] at hcells
  obtain ⟨doc, hdoc, hheader, hrecords⟩ := read_of_cut hcut hwidth
  refine ⟨doc, hdoc, hheader.trans hcontent, hrecords.trans ?_⟩
  rw [← hothers, List.map_map]
  rfl

end BenchTables.Csv
