/-
  Paths of files, read segment by segment.

  What is settled of a path stays unless a segment stands for the directory above.  A path that
  was read once is read again as it is.

  * `isPathChar`, `PathDraft.Clean`: the characters that a path is made of, whatever is read.
  * `Url.isDotDot_encode`: encoding makes no dots.
  * `PathDraft.readParts_suffix`: reading on from a slash keeps all that was there.
  * `PathDraft.readParts_clean`: clean names are read as they are.
-/
import Mathlib.Data.List.SplitBy
import StyleServer.Proofs.Bytewise.Bytes
import StyleServer.Url.File

namespace StyleServer

/-! ## Characters of a path -/

/-- A character that the path of a file holds inside of a segment. -/
def isPathChar (c : Char) : Bool :=
  !(Percent.isControl c || Percent.pathSet.contains c) && c != '/' && c != '\\'

theorem isPathChar_iff {c : Char} : isPathChar c = true ↔
    (Percent.isControl c || Percent.pathSet.contains c) = false ∧ c ≠ '/' ∧ c ≠ '\\' := by
  simp [isPathChar, and_assoc]

theorem isPathChar_byte (b : UInt8) : ∀ c ∈ Percent.byte b, isPathChar c = true := by
  have hdigit : ∀ n < 16, isPathChar (Percent.writeDigit n) = true := by decide
  have hb := b.toNat_lt
  intro c hc
  simp only [Percent.byte, List.mem_cons, List.not_mem_nil, or_false] at hc
  rcases hc with rfl | rfl | rfl
  · decide
  · exact hdigit _ (by omega)
  · exact hdigit _ (by omega)

/-- A path's characters stand for themselves in a URL. -/
theorem isInner_of_isPathChar {c : Char} (h : isPathChar c = true) : Url.isInner c = true := by
  obtain ⟨hset, hslash, -⟩ := isPathChar_iff.1 h
  simp only [Url.isInner, Bool.and_eq_true, bne_iff_ne]
  refine ⟨⟨hslash, ?_⟩, ?_⟩ <;> rintro rfl <;> exact absurd hset (by decide)

namespace Percent

theorem encode_append (set : EncodeSet) (a b : Text) :
    encode set (a ++ b) = encode set a ++ encode set b := List.flatMap_append

/-- A path's characters are written as they are. -/
theorem encode_pathChars {text : Text} (h : ∀ c ∈ text, isPathChar c = true) :
    encode pathSet text = text := by
  induction text with
  | nil => rfl
  | cons c text ih =>
    obtain ⟨hc, htext⟩ := List.forall_mem_cons.1 h
    have hplain : encodeChar pathSet c = [c] := by
      rw [encodeChar, (isPathChar_iff.1 hc).1]
      rfl
    rw [encode, List.flatMap_cons, hplain, ← encode, ih htext]
    rfl

/-- What is written is made of a path's characters. -/
theorem isPathChar_of_mem_encode {text : Text} (h : ∀ c ∈ text, c ≠ '/' ∧ c ≠ '\\') :
    ∀ c ∈ encode pathSet text, isPathChar c = true := by
  intro c hc
  obtain ⟨d, hd, hc⟩ := List.mem_flatMap.1 hc
  rw [encodeChar] at hc
  split at hc
  · obtain ⟨b, -, hc⟩ := List.mem_flatMap.1 hc
    exact isPathChar_byte b c hc
  · next hset =>
    rw [List.mem_singleton.1 hc]
    exact isPathChar_iff.2 ⟨by simpa using hset, h d hd⟩

end Percent

namespace Url

/-! ## Parts between dividers -/

theorem mem_divide {kind : SchemeKind} {text : Text} :
    ∀ part ∈ divide kind text, ∀ c ∈ part, c ∈ text ∧ kind.divides c = false := by
  induction text with
  | nil => simp [divide]
  | cons d text ih =>
    intro part hpart c hc
    obtain ⟨first, rest, hparts⟩ := List.exists_cons_of_ne_nil (divide_ne_nil kind text)
    simp only [divide, hparts] at hpart
    rw [hparts, List.forall_mem_cons] at ih
    split at hpart
    · rcases List.mem_cons.1 hpart with rfl | hpart
      · simp at hc
      · rcases List.mem_cons.1 hpart with rfl | hpart
        · exact (ih.1 c hc).imp_left (List.mem_cons_of_mem d)
        · exact (ih.2 part hpart c hc).imp_left (List.mem_cons_of_mem d)
    · next hd =>
      rcases List.mem_cons.1 hpart with rfl | hpart
      · rcases List.mem_cons.1 hc with rfl | hc
        · exact ⟨List.mem_cons_self, by simpa using hd⟩
        · exact (ih.1 c hc).imp_left (List.mem_cons_of_mem d)
      · exact (ih.2 part hpart c hc).imp_left (List.mem_cons_of_mem d)

theorem file_divides {c : Char} : SchemeKind.file.divides c = false ↔ c ≠ '/' ∧ c ≠ '\\' := by
  simp [SchemeKind.divides, SchemeKind.isSpecial]

/-- Names of characters that do not divide, each with a slash behind it, and then nothing. -/
theorem divide_file_names {names : List Text}
    (h : ∀ name ∈ names, ∀ c ∈ name, isPathChar c = true) :
    divide .file (names.flatMap (· ++ ['/'])) = names ++ [[]] := by
  have hname : ∀ (name rest : Text), (∀ c ∈ name, isPathChar c = true) →
      divide .file (name ++ '/' :: rest) = name :: divide .file rest := by
    intro name rest hchars
    induction name with
    | nil => rfl
    | cons c name ih =>
      obtain ⟨hc, hchars⟩ := List.forall_mem_cons.1 hchars
      have hdivides : SchemeKind.file.divides c = false := file_divides.2 (isPathChar_iff.1 hc).2
      simp [divide, hdivides, ih hchars]
  induction names with
  | nil => rfl
  | cons name names ih =>
    obtain ⟨hfirst, hnames⟩ := List.forall_mem_cons.1 h
    rw [List.flatMap_cons, List.append_assoc, List.singleton_append, hname _ _ hfirst, ih hnames]
    rfl

theorem splitOn_slash (text : Text) : Text.splitOn '/' text = divide .other text := by
  have hsplit : ∀ start,
      (Fragment.splitFrom '/' start text).map Fragment.chars = divide .other text := by
    induction text with
    | nil => exact fun _ => rfl
    | cons c text ih =>
      intro start
      have hslash : SchemeKind.other.divides c = (c == '/') := by
        simp [SchemeKind.divides, SchemeKind.isSpecial]
      simp only [Fragment.splitFrom, divide, ← ih (start + c.utf8Size), hslash]
      split
      · rfl
      · cases Fragment.splitFrom '/' (start + c.utf8Size) text <;> rfl
  exact hsplit _

/-- Names as the path of a file has them: characters of a path, and no empty name in front of
    another. -/
structure FileNames (names : List Text) : Prop where
  ne_nil : names ≠ []
  chars : ∀ name ∈ names, ∀ c ∈ name, isPathChar c = true
  first : names.head? = some [] → names = [[]]

theorem FileNames.cases {names : List Text} (h : FileNames names) :
    names = [[]] ∨ ∃ c name rest, names = (c :: name) :: rest ∧ c ≠ '/' := by
  obtain ⟨name, rest, rfl⟩ := List.exists_cons_of_ne_nil h.ne_nil
  cases name with
  | nil => exact .inl (h.first rfl)
  | cons c name =>
    have hc := h.chars _ List.mem_cons_self c List.mem_cons_self
    exact .inr ⟨c, name, rest, rfl, (isPathChar_iff.1 hc).2.1⟩

/-! ## Runs between breaks -/

/-- A piece in which breaks stand only beside breaks has no break, or nothing else. -/
theorem squeeze_piece {piece : Text} (h : piece.IsChain fun c d => isBreak c = isBreak d) :
    squeeze piece = if piece.any isBreak then [] else piece := by
  have : Trans (fun c d : Char => isBreak c = isBreak d) (fun c d => isBreak c = isBreak d)
    (fun c d => isBreak c = isBreak d) := ⟨Eq.trans⟩
  have : Std.Symm fun c d : Char => isBreak c = isBreak d := ⟨fun _ _ => Eq.symm⟩
  have hsame : ∀ c ∈ piece, ∀ d ∈ piece, isBreak c = isBreak d := fun c hc d hd =>
    List.Pairwise.forall_of_forall (R := fun c d => isBreak c = isBreak d) (fun _ _ => rfl)
      (List.isChain_iff_pairwise.1 h) hc hd
  split
  · next hany =>
    obtain ⟨c, hc, hbreak⟩ := List.any_eq_true.1 hany
    refine List.filter_eq_nil_iff.2 fun d hd => ?_
    rw [← hsame c hc d hd, hbreak]
    decide
  · next hany =>
    refine List.filter_eq_self.2 fun d hd => ?_
    have hbreak : isBreak d = false := by
      refine Bool.eq_false_iff.2 fun hbreak => hany ?_
      exact List.any_eq_true.2 ⟨d, hd, hbreak⟩
    rw [hbreak]
    rfl

/-- The runs of a part are what is left of it without breaks. -/
theorem flatten_runs (text : Text) : (runs text).flatten = squeeze text := by
  have hpieces : ∀ pieces : List Text, (∀ piece ∈ pieces, squeeze piece =
      if piece.any isBreak then [] else piece) →
      (pieces.filter fun run => !run.any isBreak).flatten = squeeze pieces.flatten := by
    intro pieces hpieces
    induction pieces with
    | nil => rfl
    | cons piece pieces ih =>
      obtain ⟨hpiece, hpieces⟩ := List.forall_mem_cons.1 hpieces
      rw [List.flatten_cons, squeeze, List.filter_append, ← squeeze, ← squeeze, hpiece,
        ← ih hpieces, List.filter_cons]
      cases piece.any isBreak <;> simp
  rw [runs, hpieces _ fun piece hpiece => squeeze_piece ?_, List.flatten_splitBy]
  exact (List.isChain_of_mem_splitBy hpiece).imp fun _ _ h => beq_iff_eq.1 h

theorem isBreak_of_isPathChar {c : Char} (h : isPathChar c = true) : isBreak c = false := by
  refine Bool.eq_false_iff.2 fun hbreak => ?_
  simp only [isBreak, Bool.or_eq_true, beq_iff_eq] at hbreak
  rcases hbreak with (rfl | rfl) | rfl <;> cases h

/-- A path's characters make one run. -/
theorem runs_pathChars {text : Text} (hne : text ≠ []) (h : ∀ c ∈ text, isPathChar c = true) :
    runs text = [text] := by
  have hsame : text.IsChain fun c d => (isBreak c == isBreak d) = true :=
    (List.pairwise_of_forall_mem_list fun c hc d hd => by
      rw [isBreak_of_isPathChar (h c hc), isBreak_of_isPathChar (h d hd)]; rfl).isChain
  have hnone : text.any isBreak = false :=
    List.any_eq_false.2 fun c hc => by simp [isBreak_of_isPathChar (h c hc)]
  rw [runs, List.splitBy_of_isChain hne hsame, List.filter_cons, hnone]
  rfl

theorem mem_squeeze {text : Text} {c : Char} (h : c ∈ squeeze text) :
    c ∈ text ∧ isBreak c = false := by
  simpa [squeeze] using List.mem_filter.1 h

/-! ## Dots -/

/-- A character that is made lower is itself, or a capital letter. -/
theorem toLower_eq {c d : Char} (h : c.toLower = d) :
    c = d ∨ c.toNat + 32 = d.toNat ∧ 65 ≤ c.toNat ∧ c.toNat ≤ 90 := by
  unfold Char.toLower at h
  split at h
  · next hc =>
    right
    have hval : c.val + 32 = d.val := congrArg Char.val h
    have hlo : 65 ≤ c.val.toNat := UInt32.le_iff_toNat_le.1 hc.1
    have hhi : c.val.toNat ≤ 90 := UInt32.le_iff_toNat_le.1 hc.2
    have hnat := congrArg UInt32.toNat hval
    rw [UInt32.toNat_add] at hnat
    show c.val.toNat + 32 = d.val.toNat ∧ 65 ≤ c.val.toNat ∧ c.val.toNat ≤ 90
    have : (32 : UInt32).toNat = 32 := rfl
    omega
  · exact .inl h

/-- A dot, plain or encoded. -/
def IsDotUnit (text : Text) : Prop := text = ['.'] ∨ text = ['%', '2', 'e'] ∨ text = ['%', '2', 'E']

theorem isDotUnit_of_toLower {text : Text}
    (h : text.map Char.toLower = ['.'] ∨ text.map Char.toLower = ['%', '2', 'e']) :
    IsDotUnit text := by
  have hplain : ∀ {c d : Char}, c.toLower = d → d.toNat < 97 → c = d := by
    intro c d hc hd
    rcases toLower_eq hc with hc | hc
    · exact hc
    · omega
  rcases h with h | h
  · obtain ⟨c, rfl, hc⟩ := List.map_eq_singleton_iff.1 h
    rw [hplain hc (by decide)]
    exact .inl rfl
  · obtain ⟨a, rest, rfl, ha, h⟩ := List.map_eq_cons_iff.1 h
    obtain ⟨b, rest, rfl, hb, h⟩ := List.map_eq_cons_iff.1 h
    obtain ⟨c, rfl, hc⟩ := List.map_eq_singleton_iff.1 h
    rw [hplain ha (by decide), hplain hb (by decide)]
    rcases toLower_eq hc with rfl | ⟨hc, -⟩
    · exact .inr (.inl rfl)
    · have hupper : c.toNat = 'E'.toNat := by
        have : 'e'.toNat = 101 := rfl
        have : 'E'.toNat = 69 := rfl
        omega
      rw [Char.toNat_inj.1 hupper]
      exact .inr (.inr rfl)

theorem isDotDot_iff {text : Text} :
    isDotDot text = true ↔ ∃ a b, IsDotUnit a ∧ IsDotUnit b ∧ text = a ++ b := by
  constructor
  · intro h
    simp only [isDotDot, decide_eq_true_eq, List.mem_cons, List.not_mem_nil, or_false] at h
    have hsplit : ∀ a b : Text, text.map Char.toLower = a ++ b →
        (a = ['.'] ∨ a = ['%', '2', 'e']) → (b = ['.'] ∨ b = ['%', '2', 'e']) →
        ∃ a b, IsDotUnit a ∧ IsDotUnit b ∧ text = a ++ b := by
      intro a b hmap ha hb
      obtain ⟨a', b', rfl, ha', hb'⟩ := List.map_eq_append_iff.1 hmap
      exact ⟨a', b', isDotUnit_of_toLower (by rwa [ha']), isDotUnit_of_toLower (by rwa [hb']), rfl⟩
    rcases h with h | h | h | h
    · exact hsplit ['.'] ['.'] h (.inl rfl) (.inl rfl)
    · exact hsplit ['.'] ['%', '2', 'e'] h (.inl rfl) (.inr rfl)
    · exact hsplit ['%', '2', 'e'] ['.'] h (.inr rfl) (.inl rfl)
    · exact hsplit ['%', '2', 'e'] ['%', '2', 'e'] h (.inr rfl) (.inr rfl)
  · rintro ⟨a, b, ha, hb, rfl⟩
    rcases ha with rfl | rfl | rfl <;> rcases hb with rfl | rfl | rfl <;> decide

/-- A character is written as it is, or as bytes that are no dot. -/
theorem encodeChar_cases (c : Char) :
    Percent.encodeChar Percent.pathSet c = [c] ∨
      ∃ d e rest, Percent.encodeChar Percent.pathSet c = '%' :: d :: e :: rest ∧
        ¬ (d = '2' ∧ (e = 'e' ∨ e = 'E')) := by
  rw [Percent.encodeChar]
  split
  · next hset =>
    obtain ⟨b, bs, hbytes⟩ := List.exists_cons_of_ne_nil
      (List.ne_nil_of_length_pos (by rw [String.length_utf8EncodeChar]; exact c.utf8Size_pos))
    refine .inr ⟨_, _, bs.flatMap Percent.byte, by rw [hbytes]; rfl, ?_⟩
    rintro ⟨hhigh, hlow⟩
    have hdigits : ∀ n < 16, (Percent.writeDigit n = '2' → n = 2) ∧
        (Percent.writeDigit n = 'e' ∨ Percent.writeDigit n = 'E' → n = 14) := by decide
    have hb := b.toNat_lt
    have hhigh := (hdigits (b.toNat / 16) (by omega)).1 hhigh
    have hlow := (hdigits (b.toNat % 16) (by omega)).2 hlow
    -- The byte of a dot is that of no other character.
    rcases utf8EncodeChar_cases c with ⟨-, hone, hnat⟩ | ⟨-, hbig⟩
    · rw [hone] at hbytes
      obtain ⟨rfl, -⟩ := List.cons.inj hbytes
      have hdot : c = '.' := Char.toNat_inj.1 (show c.toNat = 46 by omega)
      rw [hdot] at hset
      exact absurd hset (by decide)
    · have := hbig b (by rw [hbytes]; exact List.mem_cons_self)
      omega
  · exact .inl rfl

/-- A character other than `%` in what is written was there before. -/
theorem exists_of_encode_cons {text rest : Text} {d : Char} (hd : d ≠ '%')
    (h : Percent.encode Percent.pathSet text = d :: rest) :
    ∃ text', text = d :: text' ∧ Percent.encode Percent.pathSet text' = rest := by
  cases text with
  | nil => cases h
  | cons c text =>
    rw [Percent.encode, List.flatMap_cons, ← Percent.encode] at h
    rcases encodeChar_cases c with hc | ⟨e, f, more, hc, -⟩
    · rw [hc] at h
      obtain ⟨rfl, hrest⟩ := List.cons.inj h
      exact ⟨text, rfl, hrest⟩
    · rw [hc] at h
      exact absurd (List.cons.inj h).1.symm hd

/-- A dot in what is written was there before. -/
theorem exists_of_encode_unit {text unit rest : Text} (hunit : IsDotUnit unit)
    (h : Percent.encode Percent.pathSet text = unit ++ rest) :
    ∃ text', text = unit ++ text' ∧ Percent.encode Percent.pathSet text' = rest := by
  have hescape : ∀ e, e = 'e' ∨ e = 'E' →
      Percent.encode Percent.pathSet text = ['%', '2', e] ++ rest →
      ∃ text', text = ['%', '2', e] ++ text' ∧
        Percent.encode Percent.pathSet text' = rest := by
    intro e he h
    cases text with
    | nil => cases h
    | cons c text =>
      rw [Percent.encode, List.flatMap_cons, ← Percent.encode] at h
      rcases encodeChar_cases c with hc | ⟨d, f, more, hc, hne⟩
      · rw [hc] at h
        obtain ⟨rfl, hrest⟩ := List.cons.inj h
        have hpercent : e ≠ '%' := by rcases he with rfl | rfl <;> decide
        obtain ⟨behind, rfl, hbehind⟩ := exists_of_encode_cons (by decide) hrest
        obtain ⟨text', rfl, htext'⟩ := exists_of_encode_cons hpercent hbehind
        exact ⟨text', rfl, htext'⟩
      · rw [hc] at h
        obtain ⟨-, htail⟩ := List.cons.inj h
        obtain ⟨hd, htail⟩ := List.cons.inj htail
        obtain ⟨hf, -⟩ := List.cons.inj htail
        exact absurd ⟨hd, hf ▸ he⟩ hne
  rcases hunit with rfl | rfl | rfl
  · exact exists_of_encode_cons (by decide) h
  · exact hescape 'e' (.inl rfl) h
  · exact hescape 'E' (.inr rfl) h

/-- **Encoding makes no dots.** -/
theorem isDotDot_encode {text : Text} (h : isDotDot text = false) :
    isDotDot (Percent.encode Percent.pathSet text) = false := by
  refine Bool.eq_false_iff.2 fun hdots => ?_
  obtain ⟨a, b, ha, hb, hencode⟩ := isDotDot_iff.1 hdots
  obtain ⟨text, rfl, hrest⟩ := exists_of_encode_unit ha hencode
  obtain ⟨text, rfl, hend⟩ := exists_of_encode_unit hb (hrest.trans (List.append_nil b).symm)
  have hnil : text = [] := by
    cases text with
    | nil => rfl
    | cons c text =>
      rw [Percent.encode, List.flatMap_cons] at hend
      rcases encodeChar_cases c with hc | ⟨d, e, more, hc, -⟩ <;> rw [hc] at hend <;> cases hend
  rw [hnil, List.append_nil, isDotDot_iff.2 ⟨a, b, ha, hb, rfl⟩] at h
  cases h

end Url

namespace PathDraft

variable {kind : SchemeKind} {d : PathDraft} {s chars : Text}

/-! ## Whatever is read -/

/-- All of the path is slashes and characters of a path. -/
structure Clean (d : PathDraft) : Prop where
  settled : ∀ c ∈ d.settled, c = '/' ∨ isPathChar c = true
  segment : ∀ c ∈ d.segment, c = '/' ∨ isPathChar c = true

theorem Clean.partDrive (h : d.Clean) : d.partDrive.Clean := by
  unfold PathDraft.partDrive
  split
  · next c segment _ hmoved =>
    have hmem : ∀ e ∈ c :: segment, e = '/' ∨ isPathChar e = true := by
      rw [← hmoved]
      exact List.forall_mem_append.2 ⟨h.segment, by simp⟩
    obtain ⟨hc, hsegment⟩ := List.forall_mem_cons.1 hmem
    exact ⟨List.forall_mem_cons.2 ⟨hc, h.settled⟩, hsegment⟩
  · exact h

theorem Clean.addRun (h : d.Clean) {run : Text} (hrun : ∀ c ∈ run, c ≠ '/' ∧ c ≠ '\\') :
    (d.addRun kind run).Clean := by
  have hparted : (if kind = .file then d.partDrive else d).Clean := by
    split
    · exact h.partDrive
    · exact h
  exact ⟨hparted.settled, List.forall_mem_append.2
    ⟨hparted.segment, fun c hc => .inr (Percent.isPathChar_of_mem_encode hrun c hc)⟩⟩

theorem dropName_suffix (kind : SchemeKind) (s : Text) : dropName kind s <:+ s := by
  rw [dropName]
  split
  · exact List.suffix_refl s
  · exact List.dropWhile_suffix _

theorem dropSlash_suffix (s : Text) : dropSlash s <:+ s := by
  unfold dropSlash
  split
  · dsimp only
    split
    · exact List.suffix_refl _
    · exact List.suffix_cons _ _
  · exact List.suffix_refl _

theorem mem_withSlash {c : Char} (h : c ∈ withSlash s) : c = '/' ∨ c ∈ s := by
  rw [withSlash] at h
  split at h
  · exact .inr h
  · exact List.mem_cons.1 h

theorem Clean.closeSegment (h : d.Clean) (slash : Bool) : (d.closeSegment kind slash).Clean := by
  have hslash : ∀ s : Text, (∀ c ∈ s, c = '/' ∨ isPathChar c = true) →
      ∀ c ∈ withSlash s, c = '/' ∨ isPathChar c = true := by
    intro s hs c hc
    exact (mem_withSlash hc).elim .inl (hs c)
  have hended : ∀ s : Text, (∀ c ∈ s, c = '/' ∨ isPathChar c = true) →
      ∀ c ∈ (if slash then '/' :: s else s), c = '/' ∨ isPathChar c = true := by
    intro s hs
    split
    · exact List.forall_mem_cons.2 ⟨.inl rfl, hs⟩
    · exact hs
  have habove : ∀ c ∈ dropName kind (dropSlash d.settled), c = '/' ∨ isPathChar c = true :=
    fun c hc => h.settled c
      (((dropName_suffix kind _).trans (dropSlash_suffix d.settled)).subset hc)
  unfold PathDraft.closeSegment
  dsimp only
  split
  · refine ⟨?_, by simp⟩
    dsimp only
    split
    · exact hslash _ habove
    · exact habove
  · split
    · exact ⟨hslash _ h.settled, by simp⟩
    · split
      · next root c bar hsettled hsegment =>
        have hroot := h.settled root (by rw [hsettled]; simp)
        have hc := h.segment c (by rw [hsegment]; simp)
        have hbar := h.segment bar (by rw [hsegment]; simp)
        split
        · have hcolon : isPathChar ':' = true := by decide
          exact ⟨hended _ (by simpa using ⟨hcolon, hc, hroot⟩), by simp⟩
        · exact ⟨hended _ (by simpa using ⟨hbar, hc, hroot⟩), by simp⟩
      · refine ⟨hended _ (List.forall_mem_append.2 ⟨fun c hc => ?_, h.settled⟩), by simp⟩
        exact h.segment c (List.mem_reverse.1 hc)

theorem Clean.readParts (h : d.Clean) {parts : List Text}
    (hparts : ∀ part ∈ parts, ∀ c ∈ part, c ≠ '/' ∧ c ≠ '\\') : (d.readParts kind parts).Clean := by
  induction parts generalizing d with
  | nil => exact h
  | cons part parts ih =>
    obtain ⟨hpart, hparts⟩ := List.forall_mem_cons.1 hparts
    have hruns : ∀ run ∈ Url.runs part, ∀ c ∈ run, c ≠ '/' ∧ c ≠ '\\' := by
      intro run hrun c hc
      have hmem : c ∈ (Url.runs part).flatten := List.mem_flatten_of_mem hrun hc
      rw [Url.flatten_runs] at hmem
      exact hpart c (Url.mem_squeeze hmem).1
    have hfold : ∀ (runs : List Text) (d : PathDraft), d.Clean →
        (∀ run ∈ runs, ∀ c ∈ run, c ≠ '/' ∧ c ≠ '\\') →
        (runs.foldl (PathDraft.addRun kind) d).Clean := by
      intro runs
      induction runs with
      | nil => exact fun d h _ => h
      | cons run runs ih =>
        intro d h hruns
        obtain ⟨hrun, hruns⟩ := List.forall_mem_cons.1 hruns
        exact ih _ (h.addRun hrun) hruns
    exact ih ((hfold _ d h hruns).closeSegment _) hparts

/-- **Whatever is read** becomes slashes and characters of a path. -/
theorem clean_read {start : Text} (h : ∀ c ∈ start, c = '/' ∨ isPathChar c = true) (text : Text) :
    (read .file start text).Clean := by
  refine Clean.readParts ⟨fun c hc => h c (List.mem_reverse.1 hc), by simp [ofText]⟩ ?_
  intro part hpart c hc
  exact Url.file_divides.1 (Url.mem_divide part hpart c hc).2

/-! ## Reading on -/

/-- What has become of characters behind a slash: a segment, or, behind a drive at the root, the
    slash that parts them from it. -/
inductive Reading (s chars : Text) (d : PathDraft) : Prop where
  | plain (hsettled : d.settled = s)
      (hsegment : d.segment = Percent.encode Percent.pathSet chars)
  | parted {c : Char} {rest : Text} (hsettled : d.settled = c :: s)
      (hsegment : d.segment = ':' :: '/' :: rest)

theorem isDriveAlone_iff : d.isDriveAlone = true ↔
    ∃ c root, d.segment.reverse ++ d.settled = [':', c, root] ∧ c.isAlpha = true := by
  unfold isDriveAlone
  constructor
  · intro h
    split at h
    · next c root hfront =>
      -- Of a text of four or more characters, four would have been taken.
      have hlength := congrArg List.length hfront
      rw [List.length_take] at hlength
      have hshort : (d.segment.reverse ++ d.settled).length ≤ 4 := by
        simp only [List.length_cons, List.length_nil] at hlength
        omega
      rw [List.take_of_length_le hshort] at hfront
      exact ⟨c, root, hfront, h⟩
    · cases h
  · rintro ⟨c, root, hall, halpha⟩
    rw [hall]
    exact halpha

theorem partDrive_of_not (h : d.isDriveAlone = false) : d.partDrive = d := by
  unfold partDrive
  rw [h]

/-- What stands behind a slash and makes a drive of it at the root. -/
theorem drive_behind_slash {back rest : Text} {c root : Char}
    (h : back ++ '/' :: rest = [':', c, root]) (hc : c.isAlpha = true) : back = [':', c] := by
  rcases back with - | ⟨a, - | ⟨b, - | ⟨e, back⟩⟩⟩
  · simp at h
  · obtain ⟨-, rfl, -⟩ : a = ':' ∧ '/' = c ∧ rest = [root] := by simpa using h
    exact absurd hc (by decide)
  · obtain ⟨rfl, rfl, -⟩ : a = ':' ∧ b = c ∧ '/' = root ∧ rest = [] := by simpa using h
    rfl
  · simp at h

/-- Before a run of characters is added, a drive at the root is parted from it. -/
theorem Reading.partDrive {rest : Text} (h : Reading ('/' :: rest) chars d) :
    Reading ('/' :: rest) chars d.partDrive := by
  cases hdrive : d.isDriveAlone with
  | false => rwa [partDrive_of_not hdrive]
  | true =>
    obtain ⟨c, root, hall, halpha⟩ := isDriveAlone_iff.1 hdrive
    rcases h with ⟨hsettled, hsegment⟩ | ⟨hsettled, hsegment⟩
    · -- The drive is the segment, and all that is settled is the root.
      rw [hsettled] at hall
      have hparts : d.segment = [c, ':'] := by
        rw [← List.reverse_reverse d.segment, drive_behind_slash hall halpha]
        rfl
      have hsettled : d.partDrive.settled = c :: '/' :: rest := by
        rw [PathDraft.partDrive, hdrive, hparts]
        exact congrArg (c :: ·) hsettled
      have hsegment : d.partDrive.segment = ':' :: '/' :: [] := by
        rw [PathDraft.partDrive, hdrive, hparts]
        rfl
      exact .parted hsettled hsegment
    · have hlength := congrArg List.length hall
      rw [hsettled, hsegment] at hlength
      simp only [List.length_append, List.length_reverse, List.length_cons,
        List.length_nil] at hlength
      omega

theorem Reading.addRun {rest : Text} (h : Reading ('/' :: rest) chars d) (run : Text) :
    Reading ('/' :: rest) (chars ++ run) (d.addRun .file run) := by
  rcases h.partDrive with ⟨hsettled, hsegment⟩ | @⟨c, tail, hsettled, hsegment⟩
  · refine .plain hsettled ?_
    rw [Percent.encode_append, ← hsegment]
    rfl
  · have hmore : (d.addRun .file run).segment =
        ':' :: '/' :: (tail ++ Percent.encode Percent.pathSet run) := by
      show d.partDrive.segment ++ _ = _
      rw [hsegment]
      rfl
    exact .parted hsettled hmore

theorem Reading.foldl_addRun {rest : Text} (h : Reading ('/' :: rest) chars d)
    (runs : List Text) :
    Reading ('/' :: rest) (chars ++ runs.flatten) (runs.foldl (PathDraft.addRun .file) d) := by
  induction runs generalizing d chars with
  | nil => simpa using h
  | cons run runs ih =>
    have := ih (h.addRun run)
    rwa [List.append_assoc] at this

theorem Reading.suffix (h : Reading s chars d) : s <:+ d.settled := by
  rcases h with ⟨hsettled, -⟩ | ⟨hsettled, -⟩
  · exact hsettled ▸ List.suffix_refl _
  · exact hsettled ▸ List.suffix_cons _ s

theorem Reading.isDotDot_segment (h : Reading s chars d) (hdots : Url.isDotDot chars = false) :
    Url.isDotDot d.segment = false := by
  rcases h with ⟨-, hsegment⟩ | ⟨-, hsegment⟩
  · rw [hsegment]
    exact Url.isDotDot_encode hdots
  · have hcolon : ':'.toLower = ':' := rfl
    simp [hsegment, Url.isDotDot, hcolon]

theorem suffix_withSlash (s : Text) : s <:+ withSlash s ∧ (withSlash s).head? = some '/' := by
  rw [withSlash]
  split
  · next hs => exact ⟨List.suffix_refl s, hs⟩
  · exact ⟨List.suffix_cons _ s, rfl⟩

/-- A segment that does not stand for the directory above leaves what was there. -/
theorem closeSegment_suffix (kind : SchemeKind) (h : Url.isDotDot d.segment = false)
    (slash : Bool) :
    d.settled <:+ (d.closeSegment kind slash).settled ∧ (d.closeSegment kind slash).segment = [] ∧
      (slash = true → (d.closeSegment kind slash).settled.head? = some '/') := by
  have hended : ∀ s : Text, s <:+ (if slash then '/' :: s else s) ∧
      (slash = true → (if slash then '/' :: s else s).head? = some '/') := by
    intro s
    cases slash
    · exact ⟨List.suffix_refl s, nofun⟩
    · exact ⟨List.suffix_cons _ s, fun _ => rfl⟩
  unfold closeSegment
  dsimp only
  rw [if_neg (by simp [h])]
  split
  · exact ⟨(suffix_withSlash d.settled).1, rfl, fun _ => (suffix_withSlash d.settled).2⟩
  · split
    · next root c bar hsettled _ =>
      have hroot : ∀ e : Char, d.settled <:+ [e, c, root] :=
        fun e => ⟨[e, c], by rw [hsettled]; rfl⟩
      split
      · exact ⟨(hroot ':').trans (hended _).1, rfl, (hended _).2⟩
      · exact ⟨(hroot bar).trans (hended _).1, rfl, (hended _).2⟩
    · exact ⟨(List.suffix_append _ _).trans (hended _).1, rfl, (hended _).2⟩

/-- **Reading on from a slash** keeps all that was there. -/
theorem readParts_suffix {parts : List Text} (hsegment : d.segment = [])
    (hs : d.settled.head? = some '/')
    (hdots : ∀ part ∈ parts, Url.isDotDot (Url.squeeze part) = false) :
    d.settled <:+ (d.readParts .file parts).settled := by
  induction parts generalizing d with
  | nil => exact List.suffix_refl _
  | cons part parts ih =>
    obtain ⟨hpart, hdots⟩ := List.forall_mem_cons.1 hdots
    obtain ⟨above, habove⟩ := List.head?_eq_some_iff.1 hs
    have hreading : Reading d.settled (Url.squeeze part)
        ((Url.runs part).foldl (PathDraft.addRun .file) d) := by
      have hstart : Reading ('/' :: above) [] d := .plain habove (by rw [hsegment]; rfl)
      have := hstart.foldl_addRun (Url.runs part)
      rwa [List.nil_append, Url.flatten_runs, ← habove] at this
    obtain ⟨hsuffix, hempty, hslash⟩ :=
      closeSegment_suffix .file (hreading.isDotDot_segment hpart) !parts.isEmpty
    have hkept := hreading.suffix.trans hsuffix
    cases parts with
    | nil => exact hkept
    | cons next parts => exact hkept.trans (ih hempty (hslash rfl) hdots)

/-! ## Clean names -/

/-- A name that stands for itself: characters of a path that are no dots. -/
structure IsName (name : Text) : Prop where
  chars : ∀ c ∈ name, isPathChar c = true
  notDot : Url.isDot name = false
  notDotDot : Url.isDotDot name = false

/-- A name is added to a draft that ends with a slash as it is. -/
theorem foldl_addRun_name {name : Text} (hname : ∀ c ∈ name, isPathChar c = true)
    (hsegment : d.segment = []) (hs : d.settled.head? = some '/') :
    ((Url.runs name).foldl (addRun .file) d).settled = d.settled ∧
      ((Url.runs name).foldl (addRun .file) d).segment = name := by
  by_cases hne : name = []
  · rw [hne]
    exact ⟨rfl, hsegment⟩
  · have hruns := Url.runs_pathChars hne hname
    have halone : d.isDriveAlone = false := by
      refine Bool.eq_false_iff.2 fun hdrive => ?_
      obtain ⟨c, root, hall, -⟩ := isDriveAlone_iff.1 hdrive
      rw [hsegment, List.reverse_nil, List.nil_append] at hall
      rw [hall] at hs
      cases hs
    have hrun : d.addRun .file name = { d with segment := name } := by
      simp [PathDraft.addRun, partDrive_of_not halone, hsegment, Percent.encode_pathChars hname]
    rw [hruns, List.foldl_cons, List.foldl_nil, hrun]
    exact ⟨rfl, rfl⟩

/-- A segment that is no dots is settled as it is, unless it is a drive with a bar. -/
theorem closeSegment_name (hname : IsName d.segment)
    (hdrive : d.settled.length = 1 → Url.isDrive d.segment = true →
      Url.isNormalDrive d.segment = true) (slash : Bool) :
    (d.closeSegment .file slash).settled =
        (if slash then ['/'] else []) ++ d.segment.reverse ++ d.settled ∧
      (d.closeSegment .file slash).segment = [] := by
  have hended : ∀ s : Text, (if slash then '/' :: s else s) = (if slash then ['/'] else []) ++ s :=
    fun s => by cases slash <;> rfl
  unfold closeSegment
  dsimp only
  rw [if_neg (by simp [hname.notDotDot]), if_neg (by simp [hname.notDot])]
  split
  · next root c bar _ hsettled hsegment =>
    rw [hsettled, hsegment] at hdrive
    rw [hsettled, hsegment, List.append_assoc]
    split
    · next hbar =>
      have hcolon : bar = ':' := by
        have hnormal := hdrive rfl hbar
        unfold Url.isNormalDrive at hnormal
        split at hnormal
        · next heq => exact (List.cons.inj (List.cons.inj heq).2).1
        · cases hnormal
      rw [hcolon]
      exact ⟨hended _, rfl⟩
    · exact ⟨hended _, rfl⟩
  · rw [List.append_assoc]
    exact ⟨hended _, rfl⟩

/-- **Clean names are read as they are.** -/
theorem readParts_clean {names : List Text} (hsegment : d.segment = [])
    (hs : d.settled.head? = some '/') (hnames : ∀ name ∈ names, IsName name)
    (hdrive : d.settled.length = 1 → ∀ name ∈ names.head?, Url.isDrive name = true →
      Url.isNormalDrive name = true) :
    (d.readParts .file (names ++ [[]])).settled.reverse =
      d.settled.reverse ++ names.flatMap (· ++ ['/']) := by
  induction names generalizing d with
  | nil =>
    -- The empty part at the end settles nothing.
    have hnil : IsName d.segment := by
      rw [hsegment]
      exact ⟨by simp, rfl, rfl⟩
    obtain ⟨hend, -⟩ := closeSegment_name hnil (by simp [hsegment, Url.isDrive]) false
    have hread : (d.readParts .file ([] ++ [[]])).settled =
        (d.closeSegment .file false).settled := rfl
    rw [hread, hend, hsegment]
    simp
  | cons name names ih =>
    obtain ⟨hname, hnames⟩ := List.forall_mem_cons.1 hnames
    obtain ⟨hsettled, hread⟩ := foldl_addRun_name hname.chars hsegment hs
    have hstep := closeSegment_name (hread.symm ▸ hname)
      (by rw [hsettled, hread]; exact fun hone => hdrive hone name rfl) true
    rw [hsettled, hread] at hstep
    obtain ⟨hclosed, hempty⟩ := hstep
    have hfinal := ih hempty (by rw [hclosed]; rfl) hnames
      (by
        intro hone
        rw [hclosed] at hone
        have : d.settled ≠ [] := fun hnil => by rw [hnil] at hs; cases hs
        have := List.length_pos_of_ne_nil this
        simp only [if_true, List.length_append, List.length_cons, List.length_nil,
          List.length_reverse] at hone
        omega)
    rw [hclosed] at hfinal
    have hrest : (!(names ++ [[]]).isEmpty) = true := by simp
    rw [List.cons_append, readParts, hrest, hfinal]
    simp

/-! ## Segments -/

theorem segments_file (d : PathDraft) : d.segments .file =
    (Url.divide .other (d.settled.reverse.dropWhile (· == '/'))).map String.ofList := by
  rw [segments, ← Url.splitOn_slash]
  rfl

/-- The path of a file begins with one slash. -/
theorem text_segments_file (d : PathDraft) :
    (UrlPath.segments (d.segments .file)).text.toList =
      '/' :: d.settled.reverse.dropWhile (· == '/') := by
  rw [segments_file, UrlPath.text_segments, Url.flatMap_divide]

theorem Clean.fileNames (h : d.Clean) :
    Url.FileNames (Url.divide .other (d.settled.reverse.dropWhile (· == '/'))) where
  ne_nil := Url.divide_ne_nil _ _
  chars part hpart c hc := by
    obtain ⟨hmem, hdivides⟩ := Url.mem_divide part hpart c hc
    have hsettled := (List.dropWhile_suffix _).subset hmem
    have hslash : c ≠ '/' := by
      rintro rfl
      cases hdivides
    exact (h.settled c (List.mem_reverse.1 hsettled)).resolve_left hslash
  first hfirst := by
    cases htext : d.settled.reverse.dropWhile (· == '/') with
    | nil => rfl
    | cons c text =>
      have hc : c ≠ '/' := by
        have := List.head?_dropWhile_not (· == '/') d.settled.reverse
        rw [htext] at this
        simpa using this
      obtain ⟨part, parts, hparts⟩ := List.exists_cons_of_ne_nil (Url.divide_ne_nil .other text)
      have hother : SchemeKind.other.divides c = false := by
        simp [SchemeKind.divides, SchemeKind.isSpecial, hc]
      rw [htext, Url.divide, hother, hparts] at hfirst
      cases hfirst

end PathDraft

end StyleServer
