import BenchTables.Decimal.Numeral
import BenchTables.Measurement.Basic
import BenchTables.Proofs.Decimal.Digits
import BenchTables.Proofs.Text.Ascii
import BenchTables.Proofs.Text.Padding

/-!
# What an identifier tells

An identifier is digits, a word, digits, a word, digits, and words begin with a letter.  So it is
read from the left, each part up to where the next one begins, and what it was made of comes back
(`Identity.read?_experimentId`): all columns but the first three, of which it tells the digits in a
row.  Measurements share an identifier exactly when they agree on that (`identifiers_meet_iff`).
-/

namespace BenchTables

open Decimal

/-! ## Digits and words -/

theorem takeWhile_append_cons {α : Type} {p : α → Bool} {l rest : List α} {a : α}
    (hl : ∀ x ∈ l, p x) (ha : p a = false) : (l ++ a :: rest).takeWhile p = l := by
  rw [List.takeWhile_append_of_pos hl, List.takeWhile_cons, ha, if_neg Bool.false_ne_true,
    List.append_nil]

theorem dropWhile_append_cons {α : Type} {p : α → Bool} {l rest : List α} {a : α}
    (hl : ∀ x ∈ l, p x) (ha : p a = false) : (l ++ a :: rest).dropWhile p = a :: rest := by
  rw [List.dropWhile_append_of_pos hl, List.dropWhile_cons, ha, if_neg Bool.false_ne_true]

theorem boolWord_toList (b : Bool) :
    ∃ first rest, (Measurement.boolWord b).toList = first :: rest ∧ isDigit first = false := by
  cases b
  · exact ⟨'F', "alse".toList, rfl, rfl⟩
  · exact ⟨'T', "rue".toList, rfl, rfl⟩

/-- Digits end where the first letter of a word stands. -/
theorem digits_before_word {ds : List Char} (hds : ∀ c ∈ ds, isDigit c) (b : Bool)
    (rest : List Char) :
    (ds ++ ((Measurement.boolWord b).toList ++ rest)).takeWhile isDigit = ds ∧
      (ds ++ ((Measurement.boolWord b).toList ++ rest)).dropWhile isDigit =
        (Measurement.boolWord b).toList ++ rest := by
  obtain ⟨first, others, hword, hfirst⟩ := boolWord_toList b
  rw [hword, List.cons_append]
  exact ⟨takeWhile_append_cons hds hfirst, dropWhile_append_cons hds hfirst⟩

theorem wordText_injective {a b : UInt64} (h : (wordText a).toList = (wordText b).toList) :
    a = b := by
  rw [wordText, wordText, natText_toList, natText_toList] at h
  exact UInt64.toNat_inj.mp (digits_injective h)

theorem isDigit_of_mem_wordText {w : UInt64} {c : Char} (h : c ∈ (wordText w).toList) :
    isDigit c := by
  rw [wordText, natText_toList] at h
  exact isDigit_of_mem_digits h

theorem readWord_wordText (w : UInt64) : readWord 10 (wordText w).toList = .ok w := by
  rw [wordText, natText_toList]
  exact readWord_digits w

namespace Measurement

/-! ## Identifiers of measurements -/

/-- The digits with which an identifier begins. -/
def sizeDigits (m : Measurement) : List Char :=
  (wordText m.dbSize).toList ++ (wordText m.keyLength).toList ++ (wordText m.valueLength).toList

theorem isDigit_of_mem_sizeDigits {m : Measurement} {c : Char} (h : c ∈ m.sizeDigits) :
    isDigit c := by
  rw [sizeDigits, List.mem_append, List.mem_append] at h
  rcases h with (h | h) | h <;> exact isDigit_of_mem_wordText h

theorem experimentId_toList (m : Measurement) :
    m.experimentId.toList =
      m.sizeDigits ++ ((boolWord m.malicious).toList ++ ((wordText m.rate).toList ++
        ((boolWord m.multiClient).toList ++ (wordText m.threads).toList))) := by
  simp only [experimentId, String.toList_append, sizeDigits, List.append_assoc]

theorem mem_experimentId {m : Measurement} {c : Char} (h : c ∈ m.experimentId.toList) :
    isDigit c ∨ c ∈ "TrueFalse".toList := by
  have hword : ∀ b, c ∈ (boolWord b).toList → c ∈ "TrueFalse".toList := by
    intro b hb
    cases b
    · exact List.mem_append_right "True".toList hb
    · exact List.mem_append_left "False".toList hb
  rw [experimentId_toList] at h
  simp only [List.mem_append] at h
  rcases h with h | h | h | h | h
  · exact Or.inl (isDigit_of_mem_sizeDigits h)
  · exact Or.inr (hword _ h)
  · exact Or.inl (isDigit_of_mem_wordText h)
  · exact Or.inr (hword _ h)
  · exact Or.inl (isDigit_of_mem_wordText h)

theorem isAscii_experimentId (m : Measurement) : Text.IsAscii m.experimentId := by
  intro c hc
  rcases mem_experimentId hc with h | h
  · exact (toNat_of_isDigit h).2.trans_lt (by decide)
  · have hascii : "TrueFalse".toList.all fun d => d.toNat < 0x80 := by decide
    exact of_decide_eq_true (List.all_eq_true.mp hascii c h)

theorem trim_experimentId (m : Measurement) : Text.trim m.experimentId = m.experimentId := by
  apply Text.trim_of_forall
  intro c hc
  rcases mem_experimentId hc with h | h
  · exact Text.isBlank_of_isDigit h
  · have hblank : "TrueFalse".toList.all fun d => !Text.isBlank d := by decide
    simpa using List.all_eq_true.mp hblank c h

end Measurement

/-! ## Reading an identifier -/

/-- What an identifier tells of the measurements that have it. -/
structure Identity where
  /-- The digits of the size of the database and of the two lengths, run together. -/
  sizes : String
  malicious : Bool
  rate : UInt64
  multiClient : Bool
  threads : UInt64
deriving DecidableEq

def Measurement.identity (m : Measurement) : Identity where
  sizes := wordText m.dbSize ++ wordText m.keyLength ++ wordText m.valueLength
  malicious := m.malicious
  rate := m.rate
  multiClient := m.multiClient
  threads := m.threads

theorem Measurement.identity_sizes_toList (m : Measurement) :
    m.identity.sizes.toList = m.sizeDigits := by
  simp only [identity, String.toList_append, sizeDigits]

namespace Identity

/-- The truth value whose word a text begins with, and the text after it. -/
def takeWord? : List Char → Option (Bool × List Char)
  | 'T' :: 'r' :: 'u' :: 'e' :: rest => some (true, rest)
  | 'F' :: 'a' :: 'l' :: 's' :: 'e' :: rest => some (false, rest)
  | _ => none

/-- What an identifier says, if it is one. -/
def read? (id : String) : Option Identity := do
  let sizes := String.ofList (id.toList.takeWhile isDigit)
  let (malicious, rest) ← takeWord? (id.toList.dropWhile isDigit)
  let rate ← (readWord 10 (rest.takeWhile isDigit)).toOption
  let (multiClient, rest) ← takeWord? (rest.dropWhile isDigit)
  let threads ← (readWord 10 rest).toOption
  return { sizes, malicious, rate, multiClient, threads }

theorem takeWord?_boolWord (b : Bool) (rest : List Char) :
    takeWord? ((Measurement.boolWord b).toList ++ rest) = some (b, rest) := by
  cases b <;> rfl

/-- An identifier is read back as what it was made of. -/
theorem read?_experimentId (m : Measurement) : read? m.experimentId = some m.identity := by
  obtain ⟨hsizes, hrest⟩ := digits_before_word (fun c => m.isDigit_of_mem_sizeDigits) m.malicious
    ((wordText m.rate).toList ++
      ((Measurement.boolWord m.multiClient).toList ++ (wordText m.threads).toList))
  obtain ⟨hrate, hlast⟩ := digits_before_word (fun c => isDigit_of_mem_wordText (w := m.rate))
    m.multiClient (wordText m.threads).toList
  have hofList : String.ofList m.sizeDigits = m.identity.sizes := by
    rw [← m.identity_sizes_toList, String.ofList_toList]
  unfold read?
  rw [m.experimentId_toList, hsizes, hrest, takeWord?_boolWord]
  dsimp only [Option.bind_eq_bind, Option.bind_some]
  rw [hrate, hlast, takeWord?_boolWord, readWord_wordText]
  dsimp only [Option.bind_some]
  rw [readWord_wordText, hofList]
  rfl

example : read? "10243264False1True8" = some ⟨"10243264", false, 1, true, 8⟩ := by decide +kernel

end Identity

namespace Measurement

/-- Equal identifiers are equal in everything but how the sizes divide their digits. -/
theorem experimentId_eq_iff (a b : Measurement) :
    a.experimentId = b.experimentId ↔
      a.sizeDigits = b.sizeDigits ∧ a.malicious = b.malicious ∧ a.rate = b.rate ∧
        a.multiClient = b.multiClient ∧ a.threads = b.threads := by
  constructor
  · intro h
    -- One text has one reading.
    have hread : some a.identity = some b.identity := by
      rw [← Identity.read?_experimentId, h, Identity.read?_experimentId]
    have hidentity := Option.some.inj hread
    refine ⟨?_, congrArg Identity.malicious hidentity, congrArg Identity.rate hidentity,
      congrArg Identity.multiClient hidentity, congrArg Identity.threads hidentity⟩
    rw [← identity_sizes_toList, hidentity, identity_sizes_toList]
  · rintro ⟨hsizes, hmalicious, hrate, hmulti, hthreads⟩
    rw [← String.toList_inj, experimentId_toList, experimentId_toList, hsizes, hmalicious, hrate,
      hmulti, hthreads]

end Measurement

/-- Measurements share an identifier exactly when they agree on how the protocol was run, on their
rate, kind of client and threads, and on the digits of their three sizes in a row.  All of that can
be read off the identifier alone. -/
theorem identifiers_meet_iff (a b : Measurement) :
    (a.experimentId = b.experimentId ↔
      (a.malicious = b.malicious ∧ a.rate = b.rate ∧ a.multiClient = b.multiClient ∧
        a.threads = b.threads) ∧
      wordText a.dbSize ++ wordText a.keyLength ++ wordText a.valueLength =
        wordText b.dbSize ++ wordText b.keyLength ++ wordText b.valueLength) ∧
    Identity.read? a.experimentId = some a.identity := by
  refine ⟨?_, Identity.read?_experimentId a⟩
  rw [Measurement.experimentId_eq_iff, and_comm, ← a.identity_sizes_toList,
    ← b.identity_sizes_toList, String.toList_inj]
  rfl

end BenchTables
