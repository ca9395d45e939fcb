/-
  URLs that name files.

  A URL is made from the names of a path, byte by byte; a disk is searched name by name.  So
  paths that have one URL lead to one file, however they are written:

  * `Url.decode_segmentOf`: a name is read back from its segment, and so the URL of names has
    these names (`Url.ofNames_inj`).
  * `WrittenPath.names_join`: the names of a path in a directory are those of the directory
    and its own.
  * `Path.follow?`: where names lead, if all that stands on the way lets them.
  * `Disk.readPath_eq_of_pathUrl`: what is read from paths of one URL is the same.
-/
import StyleServer.Check
import Mathlib.Data.List.Basic
import Mathlib.Data.String.Basic
import Mathlib.Tactic.Common

namespace StyleServer

/-! ## Bytes -/

theorem Text.bytes_injective {a b : Text} (h : Text.bytes a = Text.bytes b) : a = b := by
  have hbytes : (String.ofList a).toByteArray = (String.ofList b).toByteArray := by
    simp only [String.toByteArray_ofList, List.utf8Encode]
    exact congrArg List.toByteArray h
  exact String.ofList_injective (String.toByteArray_inj.1 hbytes)

/-- The byte of a slash stands for nothing else. -/
theorem eq_slash_of_mem {c : Char} (h : WrittenPath.slash ∈ String.utf8EncodeChar c) :
    c = '/' := by
  -- The bytes of any character that has several are above those of ASCII.
  have hnot : ∀ n k, 0x80 ≤ k → n + k < 256 → WrittenPath.slash ≠ UInt8.ofNat (n + k) := by
    intro n k hk hlt heq
    have hn : 0x2F = (n + k) % 256 := congrArg UInt8.toNat heq
    omega
  simp only [String.utf8EncodeChar] at h
  split at h
  · have heq : 0x2F = c.val.toNat % 256 := congrArg UInt8.toNat (List.mem_singleton.1 h)
    have hc : c.val.toNat = 0x2F := by omega
    exact Char.ext (UInt32.toNat_inj.1 hc)
  · split at h
    · simp only [List.mem_cons, List.not_mem_nil, or_false] at h
      rcases h with h | h <;> exact absurd h (hnot _ _ (by omega) (by omega))
    · split at h
      · simp only [List.mem_cons, List.not_mem_nil, or_false] at h
        rcases h with h | h | h <;> exact absurd h (hnot _ _ (by omega) (by omega))
      · simp only [List.mem_cons, List.not_mem_nil, or_false] at h
        rcases h with h | h | h | h <;> exact absurd h (hnot _ _ (by omega) (by omega))

theorem slash_mem_bytes {text : Text} (h : WrittenPath.slash ∈ Text.bytes text) : '/' ∈ text := by
  obtain ⟨c, hc, hmem⟩ := List.mem_flatMap.1 h
  exact eq_slash_of_mem hmem ▸ hc

theorem FileName.bytes_of_text? {name : FileName} {text : String} (h : name.text? = some text) :
    Text.bytes text.toList = name := by
  simp only [text?, Option.ite_none_right_eq_some, Option.some.injEq] at h
  obtain ⟨hbytes, rfl⟩ := h
  rwa [String.toList_ofList]

/-! ## Segments -/

namespace Url

theorem digit?_writeDigit : ∀ n < 16, digit? 16 (Percent.writeDigit n) = some n := by decide

theorem escape?_byte (b : UInt8) (rest : Text) :
    Percent.escape? (Percent.byte b ++ rest) = some b := by
  have hb := b.toNat_lt
  have hhigh := digit?_writeDigit (b.toNat / 16) (by omega)
  have hlow := digit?_writeDigit (b.toNat % 16) (by omega)
  simp only [Percent.byte, List.cons_append, Percent.escape?, hhigh, hlow, Option.bind_eq_bind,
    Option.bind_some]
  rw [Nat.div_add_mod, UInt8.ofNat_toNat]
  rfl

/-- A byte is read back from what stands for it. -/
theorem decodeFrom_encodeByte (b : UInt8) (rest : Text) :
    Percent.decodeFrom 0 (Percent.encodeByte Percent.fileNameSet b ++ rest) =
      b :: Percent.decodeFrom 0 rest := by
  have hb := b.toNat_lt
  simp only [Percent.encodeByte]
  split
  · have hescape := escape?_byte b rest
    simp only [Percent.byte, List.cons_append, List.nil_append] at hescape ⊢
    simp only [Percent.decodeFrom, hescape]
  · next hplain =>
    simp only [Percent.isControl, Bool.or_eq_true, decide_eq_true_eq, List.contains_iff_mem,
      not_or] at hplain
    obtain ⟨⟨-, hascii⟩, hset⟩ := hplain
    have hnat : (Char.ofNat b.toNat).toNat = b.toNat := by
      have hvalid : b.toNat.isValidChar := Or.inl (by omega)
      rw [Char.ofNat, dif_pos hvalid]
      rfl
    have hescape : Percent.escape? (Char.ofNat b.toNat :: rest) = none := by
      have hpercent : Char.ofNat b.toNat ≠ '%' := fun heq => hset (by rw [heq]; decide)
      simp only [Percent.escape?]
      split
      · next heq => exact absurd (List.cons.inj heq).1 hpercent
      · rfl
    have hencode : String.utf8EncodeChar (Char.ofNat b.toNat) = [b] := by
      have hval : (Char.ofNat b.toNat).val.toNat = b.toNat := hnat
      simp only [String.utf8EncodeChar, hval]
      rw [if_pos (by omega), UInt8.ofNat_toNat]
    simp only [List.cons_append, List.nil_append, Percent.decodeFrom, hescape, hencode]

theorem decode_segmentOf (name : FileName) : Percent.decode (segmentOf name) = name := by
  induction name with
  | nil => rfl
  | cons b name ih =>
    rw [segmentOf, List.flatMap_cons, Percent.decode, decodeFrom_encodeByte]
    exact congrArg (b :: ·) ih

/-- The URL of names has these names. -/
theorem ofNames_inj {names names' : List FileName} (hne : [] ∉ names) (hne' : [] ∉ names')
    (h : ofNames names = ofNames names') : names = names' := by
  have hsegments : segmentsOf names = segmentsOf names' := by
    have hpath : (segmentsOf names).map String.ofList = (segmentsOf names').map String.ofList :=
      congrArg (fun u : Url => u.segments) h
    exact List.map_injective_iff.2 (fun _ _ => String.ofList_injective) hpath
  have hinj : Function.Injective segmentOf :=
    Function.LeftInverse.injective (g := Percent.decode) decode_segmentOf
  -- Only the root has an empty segment.
  cases names with
  | nil =>
    cases names' with
    | nil => rfl
    | cons name' names' =>
      have hempty : segmentOf [] = segmentOf name' := (List.cons.inj hsegments).1
      exact absurd (hinj hempty) fun heq => hne' (heq ▸ List.mem_cons_self)
  | cons name names =>
    cases names' with
    | nil =>
      have hempty : segmentOf name = segmentOf [] := (List.cons.inj hsegments).1
      exact absurd (hinj hempty) fun heq => hne (heq ▸ List.mem_cons_self)
    | cons name' names' => exact List.map_injective_iff.2 hinj hsegments

end Url

/-! ## Names of paths -/

namespace WrittenPath

theorem parts_ne_nil (bytes : List UInt8) : parts bytes ≠ [] := by
  cases bytes with
  | nil => simp [parts]
  | cons b bytes =>
    simp only [parts]
    split
    · simp
    · split <;> simp

theorem parts_append_slash (a b : List UInt8) : parts (a ++ slash :: b) = parts a ++ parts b := by
  induction a with
  | nil => simp [parts]
  | cons c a ih =>
    simp only [List.cons_append, parts, ih]
    split
    · rfl
    · obtain ⟨name, names, heq⟩ := List.exists_cons_of_ne_nil (parts_ne_nil a)
      simp [heq]

theorem parts_of_not_mem {a : List UInt8} (h : slash ∉ a) : parts a = [a] := by
  induction a with
  | nil => rfl
  | cons c a ih =>
    simp only [List.mem_cons, not_or] at h
    simp [parts, Ne.symm h.1, ih h.2]

theorem names_of_name {name : FileName} (hne : name ≠ []) (hslash : slash ∉ name) :
    names ⟨name⟩ = [name] := by
  simp [names, parts_of_not_mem hslash, hne]

theorem names_append_slash (a b : List UInt8) :
    names ⟨a ++ slash :: b⟩ = names ⟨a⟩ ++ names ⟨b⟩ := by
  simp only [names, parts_append_slash, List.filter_append]

theorem nil_not_mem_names (p : WrittenPath) : [] ∉ p.names := by
  simp [names]

theorem names_join (p : WrittenPath) (name : String) :
    (p.join name).names = p.names ++ (ofText name).names := by
  simp only [join, ofText]
  split
  · next hslash =>
    obtain ⟨a, ha⟩ : ∃ a, p.bytes = a ++ [slash] :=
      List.getLast?_eq_some_iff.1 (of_decide_eq_true hslash)
    have hp : p.names = names ⟨a⟩ := by
      have := names_append_slash a []
      rw [← ha] at this
      simpa [names, parts] using this
    rw [ha, List.append_assoc, hp]
    exact names_append_slash a _
  · exact names_append_slash p.bytes _

end WrittenPath

/-! ## Paths on a disk -/

namespace Path

/-- The names of a path as bytes. -/
def nameBytes (p : Path) : List FileName := p.map fun name => Text.bytes name.toList

/-- The names of a path are names: not empty, without slashes, and no dots. -/
def Proper (p : Path) : Prop :=
  ∀ name ∈ p, name ≠ "" ∧ '/' ∉ name.toList ∧ name ≠ "." ∧ name ≠ ".."

instance (p : Path) : Decidable p.Proper :=
  inferInstanceAs (Decidable (∀ name ∈ p, _))

theorem names_of_name {name : String} (hne : name ≠ "") (hslash : '/' ∉ name.toList) :
    WrittenPath.names ⟨Text.bytes name.toList⟩ = [Text.bytes name.toList] := by
  have hbytes : Text.bytes name.toList ≠ [] := fun heq =>
    hne (String.toList_injective (Text.bytes_injective (b := []) heq))
  exact WrittenPath.names_of_name hbytes fun h => hslash (slash_mem_bytes h)

theorem Proper.names_intercalate {p : Path} (h : p.Proper) :
    WrittenPath.names ⟨Text.bytes (['/'].intercalate (p.map String.toList))⟩ = p.nameBytes := by
  induction p with
  | nil => rfl
  | cons name p ih =>
    obtain ⟨hne, hslash, -, -⟩ := h name List.mem_cons_self
    have hname := names_of_name hne hslash
    cases p with
    | nil => simpa [nameBytes] using hname
    | cons next p =>
      have hrest := ih fun n hn => h n (List.mem_cons_of_mem name hn)
      have hbytes : Text.bytes (['/'].intercalate ((name :: next :: p).map String.toList)) =
          Text.bytes name.toList ++ WrittenPath.slash ::
            Text.bytes (['/'].intercalate ((next :: p).map String.toList)) := by
        simp only [List.map_cons, List.intercalate_cons_cons, Text.bytes, List.flatMap_append,
          List.append_assoc]
        rfl
      rw [hbytes, WrittenPath.names_append_slash, hname, hrest]
      rfl

theorem Proper.names_written {p : Path} (h : p.Proper) : p.written.names = p.nameBytes := by
  have hwritten : p.written =
      ⟨[] ++ WrittenPath.slash :: Text.bytes (['/'].intercalate (p.map String.toList))⟩ := by
    simp only [written, text, WrittenPath.ofText, String.toList_append, String.toList_intercalate]
    rfl
  rw [hwritten, WrittenPath.names_append_slash, h.names_intercalate]
  rfl

theorem Proper.nameBytes_ne_dot {p : Path} (h : p.Proper) :
    ∀ name ∈ p.nameBytes, name ≠ .dot ∧ name ≠ .dotDot := by
  intro name hname
  obtain ⟨text, htext, rfl⟩ := List.mem_map.1 hname
  obtain ⟨-, -, hdot, hdotDot⟩ := h text htext
  constructor
  · intro heq
    exact hdot (String.toList_injective (Text.bytes_injective (b := ['.']) heq))
  · intro heq
    exact hdotDot (String.toList_injective (Text.bytes_injective (b := ['.', '.']) heq))

/-- Where names lead from a path, if nothing is in the way. -/
def follow? : Path → List FileName → Option Path
  | p, [] => some p
  | p, name :: names =>
    if name = .dot then follow? p names
    else if name = .dotDot then follow? p.dropLast names
    else name.text?.bind fun name => follow? (p ++ [name]) names

theorem follow?_withoutDots (p : Path) (names : List FileName) :
    follow? p (names.filter (· ≠ .dot)) = follow? p names := by
  induction names generalizing p with
  | nil => rfl
  | cons name names ih =>
    by_cases hdot : name = .dot
    · simp [follow?, hdot, ← ih]
    · simp [follow?, hdot, ← ih]

/-- Names that are those of a path lead to it. -/
theorem Proper.follow?_nameBytes {q : Path} (h : q.Proper) {p r : Path} {names : List FileName}
    (hr : follow? p (q.nameBytes ++ names) = some r) : follow? (p ++ q) names = some r := by
  induction q generalizing p with
  | nil => simpa [nameBytes] using hr
  | cons name q ih =>
    have hq : Proper q := fun n hn => h n (List.mem_cons_of_mem name hn)
    obtain ⟨hdot, hdotDot⟩ := h.nameBytes_ne_dot (Text.bytes name.toList) (by simp [nameBytes])
    have hcons : nameBytes (name :: q) ++ names =
        Text.bytes name.toList :: (nameBytes q ++ names) := rfl
    rw [hcons, follow?, if_neg hdot, if_neg hdotDot] at hr
    obtain ⟨text, htext, hr⟩ := Option.bind_eq_some_iff.1 hr
    have hname : text = name :=
      String.toList_injective (Text.bytes_injective (FileName.bytes_of_text? htext))
    rw [hname] at hr
    simpa using ih hq hr

end Path

namespace Disk

/-- What is found at the end of names is where they lead. -/
theorem follow?_of_locate {d : Disk} {p r : Path} {names : List FileName}
    (h : d.locate p names = .ok r) : p.follow? names = some r := by
  induction names generalizing p with
  | nil => exact congrArg some (Except.ok.inj h)
  | cons name names ih =>
    simp only [locate] at h
    simp only [Path.follow?]
    split at h
    · simp at h
    · simp at h
    · split_ifs at h ⊢ with hdot hdotDot hlong
      · exact ih h
      · exact ih h
      · cases htext : name.text? with
        | none => simp [htext] at h
        | some text => exact ih (by simpa [htext] using h)

/-- Where a path that can be read leads. -/
theorem follow?_of_resolve {d : Disk} {current r : Path} {p : WrittenPath}
    (h : d.resolve current p = .ok r) :
    Path.follow? (if p.isAbsolute then [] else current) p.names = some r := by
  simp only [resolve] at h
  split at h
  · simp at h
  · split at h
    · simp at h
    · split at h
      · simp at h
      · have hdots : (if p.endsInSlash then [FileName.dot] else []).filter (· ≠ .dot) = [] := by
          split <;> rfl
        have hfollow := follow?_of_locate h
        rwa [← Path.follow?_withoutDots, List.filter_append, hdots, List.append_nil,
          Path.follow?_withoutDots] at hfollow

end Disk

theorem head?_bytes {text : Text} :
    (Text.bytes text).head? = some WrittenPath.slash ↔ text.head? = some '/' := by
  cases text with
  | nil => simp [Text.bytes]
  | cons c rest =>
    obtain ⟨b, bs, hbytes⟩ := List.exists_cons_of_ne_nil (String.utf8EncodeChar_ne_nil (c := c))
    constructor
    · intro h
      have hb : b = WrittenPath.slash := by simpa [Text.bytes, hbytes] using h
      have hmem : WrittenPath.slash ∈ String.utf8EncodeChar c := by simp [hbytes, hb]
      rw [eq_slash_of_mem hmem, List.head?_cons]
    · intro h
      rw [List.head?_cons, Option.some.injEq] at h
      rw [h]
      rfl

theorem isAbsolute_ofText (path : String) :
    (WrittenPath.ofText path).isAbsolute = true ↔ path.toList.head? = some '/' :=
  decide_eq_true_iff.trans head?_bytes

/-- The URL of a path is that of its names, behind those of the directory for one that begins
    there. -/
theorem pathUrl_eq {current : Path} (hcurrent : current.Proper) (path : String) :
    pathUrl current path = .ofNames (((if (WrittenPath.ofText path).isAbsolute then []
      else current.nameBytes) ++ (WrittenPath.ofText path).names).filter (· ≠ .dot)) := by
  simp only [pathUrl, Url.ofPath, isAbsolute_ofText]
  split
  · simp
  · rw [WrittenPath.names_join, hcurrent.names_written]

/-- Paths of one URL lead to one place, wherever they begin. -/
theorem follow?_eq_of_pathUrl {current : Path} (hcurrent : current.Proper) {path path' : String}
    (hurl : pathUrl current path = pathUrl current path') {r r' : Path}
    (hr : Path.follow? (if (WrittenPath.ofText path).isAbsolute then [] else current)
      (WrittenPath.ofText path).names = some r)
    (hr' : Path.follow? (if (WrittenPath.ofText path').isAbsolute then [] else current)
      (WrittenPath.ofText path').names = some r') : r = r' := by
  have hinner : current.nameBytes.filter (· ≠ .dot) = current.nameBytes :=
    List.filter_eq_self.2 fun name hname => by simpa using (hcurrent.nameBytes_ne_dot name hname).1
  have hnil : [] ∉ current.nameBytes := hcurrent.names_written ▸ WrittenPath.nil_not_mem_names _
  rw [pathUrl_eq hcurrent, pathUrl_eq hcurrent] at hurl
  have hnames := Url.ofNames_inj (by split <;> simp [hnil, WrittenPath.nil_not_mem_names])
    (by split <;> simp [hnil, WrittenPath.nil_not_mem_names]) hurl
  rw [← Path.follow?_withoutDots] at hr hr'
  rw [List.filter_append, List.filter_append] at hnames
  split_ifs at hnames hr hr'
  · rw [List.filter_nil, List.nil_append, List.nil_append] at hnames
    rw [hnames, hr'] at hr
    exact (Option.some.inj hr).symm
  · rw [List.filter_nil, List.nil_append, hinner] at hnames
    rw [hnames] at hr
    have hr := hcurrent.follow?_nameBytes hr
    rw [List.nil_append, hr'] at hr
    exact (Option.some.inj hr).symm
  · rw [List.filter_nil, List.nil_append, hinner] at hnames
    rw [← hnames] at hr'
    have hr' := hcurrent.follow?_nameBytes hr'
    rw [List.nil_append, hr] at hr'
    exact Option.some.inj hr'
  · rw [List.append_cancel_left hnames, hr'] at hr
    exact (Option.some.inj hr).symm

/-- **What is read from paths of one URL is the same.** -/
theorem Disk.readPath_eq_of_pathUrl {d : Disk} {current : Path} (hcurrent : current.Proper)
    {path path' text text' : String} (hurl : pathUrl current path = pathUrl current path')
    (h : d.readPath current path = .ok text) (h' : d.readPath current path' = .ok text') :
    text = text' := by
  cases hr : d.resolve current (.ofText path) with
  | error e => simp [readPath, hr, Except.bind] at h
  | ok r =>
    cases hr' : d.resolve current (.ofText path') with
    | error e => simp [readPath, hr', Except.bind] at h'
    | ok r' =>
      have heq : r = r' :=
        follow?_eq_of_pathUrl hcurrent hurl (follow?_of_resolve hr) (follow?_of_resolve hr')
      simp only [readPath, hr, hr', Except.bind, heq] at h h'
      rw [h] at h'
      exact Except.ok.inj h'

end StyleServer
