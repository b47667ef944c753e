/-
The user profile of the shell.

A profile is written over the old text without cutting it off.  Reading still gives back what was
written: a value is taken from the first line of its key that has one, and the new text has a line
for each key, in front of whatever is left of the old text (`profile_round_trip`).
-/
import BrightS.Kernel.Lightshell
import BrightS.Proofs.RamfsWrites
import BrightS.Proofs.Strings

namespace BrightS

open Cursors Runs

/-! ### Scanning up to a separator -/

section Separator

variable {c : UInt8} {k v k' v' : List UInt8}

theorem takeWhile_separator (hk : c ∉ k) : (k ++ c :: v).takeWhile (· ≠ c) = k := by
  rw [List.takeWhile_append_of_pos, List.takeWhile_cons_of_neg]
  · exact List.append_nil k
  · simp
  · intro b hb
    simp only [decide_not, Bool.not_eq_eq_eq_not, Bool.not_true, decide_eq_false_iff_not]
    exact fun h => hk (h ▸ hb)

theorem dropWhile_separator (hk : c ∉ k) : (k ++ c :: v).dropWhile (· ≠ c) = c :: v := by
  rw [List.dropWhile_append_of_pos, List.dropWhile_cons_of_neg]
  · simp
  · intro b hb
    simp only [decide_not, Bool.not_eq_eq_eq_not, Bool.not_true, decide_eq_false_iff_not]
    exact fun h => hk (h ▸ hb)

theorem separator_inj (hk : c ∉ k) (hk' : c ∉ k') (heq : k ++ c :: v = k' ++ c :: v') :
    k = k' ∧ v = v' := by
  have hkeys := takeWhile_separator (v := v) hk
  rw [heq, takeWhile_separator hk'] at hkeys
  rw [hkeys] at heq
  exact ⟨hkeys.symm, List.cons_injective (List.append_cancel_left heq)⟩

theorem not_mem_takeWhile (buf : List UInt8) : c ∉ buf.takeWhile (· ≠ c) := by
  intro h
  have hne := List.mem_takeWhile_imp h
  simp at hne

end Separator

/-! ### Lines -/

variable {key line buf : List UInt8}

/-- The value of a line is what stands behind its key. -/
theorem pfLineValue_eq_some_iff {value : List UInt8} :
    pfLineValue key line = some value ↔ value ≠ [] ∧ line = key ++ colon :: value := by
  unfold pfLineValue
  constructor
  · intro h
    split_ifs at h with hlen hkey hcolon
    have hlt : key.length < line.length := by omega
    rw [not_not] at hkey hcolon
    rw [List.getD_eq_getElem _ _ hlt] at hcolon
    have hsplit : line = key ++ colon :: line.drop (key.length + 1) := by
      conv_lhs => rw [← List.take_append_drop key.length line, hkey,
        List.drop_eq_getElem_cons hlt, hcolon]
    rw [Option.some.inj h] at hsplit
    refine ⟨fun hnil => ?_, hsplit⟩
    rw [hsplit, hnil] at hlen
    simp at hlen
  · rintro ⟨hne, rfl⟩
    have hpos := List.length_pos_of_ne_nil hne
    rw [if_neg (by simp; omega), if_neg (by simp), if_neg (by simp)]
    simp

/-- What a line `k:v` says of a key. -/
theorem pfLineValue_line {k v : List UInt8} (hkey : colon ∉ key) (hk : colon ∉ k) :
    pfLineValue key (k ++ colon :: v) = if k = key ∧ v ≠ [] then some v else none := by
  split_ifs with h
  · obtain ⟨rfl, hv⟩ := h
    exact pfLineValue_eq_some_iff.mpr ⟨hv, rfl⟩
  · rw [Option.eq_none_iff_forall_ne_some]
    intro value hvalue
    obtain ⟨hne, heq⟩ := pfLineValue_eq_some_iff.mp hvalue
    obtain ⟨hkk, rfl⟩ := separator_inj hk hkey heq
    exact h ⟨hkk, hne⟩

/-! ### The scan of a text -/

theorem length_nextLine {buf : List UInt8} (hne : buf ≠ []) :
    ((buf.dropWhile (· ≠ newline)).drop 1).length < buf.length := by
  have hle := (List.dropWhile_sublist (l := buf) (· ≠ newline)).length_le
  have hpos := List.length_pos_of_ne_nil hne
  rw [List.length_drop]
  omega

/-- The rounds are enough for the text. -/
theorem pfExtractLoop_of_le {outCap : Nat} (fuel : Nat) : ∀ {buf : List UInt8},
    buf.length ≤ fuel → pfExtractLoop key outCap fuel buf = pfExtract buf key outCap := by
  induction fuel using Nat.strong_induction_on with
  | _ fuel ih =>
      intro buf hfuel
      unfold pfExtract
      cases fuel with
      | zero =>
          rw [List.eq_nil_of_length_eq_zero (Nat.le_zero.mp hfuel)]
          rfl
      | succ fuel =>
          by_cases hnil : buf = []
          · rw [hnil]
            simp [pfExtractLoop]
          have hnext := length_nextLine hnil
          obtain ⟨n, hn⟩ : ∃ n, buf.length = n + 1 :=
            Nat.exists_eq_succ_of_ne_zero (List.length_pos_of_ne_nil hnil).ne'
          rw [hn, pfExtractLoop, pfExtractLoop, if_neg hnil, if_neg hnil,
            ih fuel (by omega) (by omega), ih n (by omega) (by omega)]

@[simp] theorem pfExtract_nil (key : List UInt8) (outCap : Nat) : pfExtract [] key outCap = none :=
  rfl

theorem pfExtract_eq {outCap : Nat} (hne : buf ≠ []) :
    pfExtract buf key outCap =
      ((pfLineValue key (buf.takeWhile (· ≠ newline))).map (·.take (outCap - 1))).or
        (pfExtract ((buf.dropWhile (· ≠ newline)).drop 1) key outCap) := by
  have hnext := length_nextLine hne
  obtain ⟨n, hn⟩ : ∃ n, buf.length = n + 1 :=
    Nat.exists_eq_succ_of_ne_zero (List.length_pos_of_ne_nil hne).ne'
  rw [pfExtract, hn, pfExtractLoop, if_neg hne, pfExtractLoop_of_le n (by omega)]
  cases pfLineValue key (buf.takeWhile (· ≠ newline)) with
  | none => rfl
  | some value => rfl

/-- A text that begins with a line. -/
theorem pfExtract_line {k v rest : List UInt8} {outCap : Nat} (hkey : colon ∉ key)
    (hk : colon ∉ k) (hknl : newline ∉ k) (hv : newline ∉ v) :
    pfExtract (pfLine k v ++ rest) key outCap =
      if k = key ∧ v ≠ [] then some (v.take (outCap - 1)) else pfExtract rest key outCap := by
  have hline : newline ∉ k ++ colon :: v := by
    simp [hknl, hv]
    decide
  have htext : pfLine k v ++ rest = (k ++ colon :: v) ++ newline :: rest := by simp [pfLine]
  rw [htext, pfExtract_eq (by simp), takeWhile_separator hline, dropWhile_separator hline,
    pfLineValue_line hkey hk]
  split_ifs
  · rfl
  · rfl

/-- Texts line by line. -/
theorem line_induction {motive : List UInt8 → Prop} (nil : motive [])
    (next : ∀ buf, buf ≠ [] → motive ((buf.dropWhile (· ≠ newline)).drop 1) → motive buf)
    (buf : List UInt8) : motive buf := by
  obtain ⟨n, hn⟩ : ∃ n, buf.length = n := ⟨_, rfl⟩
  induction n using Nat.strong_induction_on generalizing buf with
  | _ n ih =>
      by_cases hnil : buf = []
      · rw [hnil]
        exact nil
      · exact next buf hnil (ih _ (hn ▸ length_nextLine hnil) _ rfl)

/-- What is extracted is a part of one line that fits the buffer. -/
theorem pfExtract_some {outCap : Nat} {value : List UInt8}
    (hvalue : pfExtract buf key outCap = some value) :
    newline ∉ value ∧ value ⊆ buf ∧ value.length ≤ outCap - 1 := by
  induction buf using line_induction with
  | nil => simp at hvalue
  | next buf hne ih =>
      rw [pfExtract_eq hne] at hvalue
      cases hline : pfLineValue key (buf.takeWhile (· ≠ newline)) with
      | none =>
          rw [hline] at hvalue
          obtain ⟨hnl, hsub, hlen⟩ := ih hvalue
          refine ⟨hnl, fun b hb => ?_, hlen⟩
          exact (List.dropWhile_sublist _).subset (List.mem_of_mem_drop (hsub hb))
      | some whole =>
          rw [hline] at hvalue
          obtain rfl : whole.take (outCap - 1) = value := Option.some.inj hvalue
          obtain ⟨-, heq⟩ := pfLineValue_eq_some_iff.mp hline
          have hpart : whole.take (outCap - 1) ⊆ buf.takeWhile (· ≠ newline) := by
            intro b hb
            rw [heq]
            exact List.mem_append_right _ (List.mem_cons_of_mem _ (List.mem_of_mem_take hb))
          refine ⟨fun hb => not_mem_takeWhile buf (hpart hb), fun b hb => ?_, List.length_take_le ..⟩
          exact (List.takeWhile_sublist _).subset (hpart hb)

/-- A smaller buffer gets the front of the value. -/
theorem pfExtract_take {outCap wide : Nat} (hwide : buf.length < wide) :
    pfExtract buf key outCap = (pfExtract buf key wide).map (·.take (outCap - 1)) := by
  induction buf using line_induction with
  | nil => rfl
  | next buf hne ih =>
      have hnext := ih (Nat.lt_trans (length_nextLine hne) hwide)
      rw [pfExtract_eq hne, pfExtract_eq hne, hnext]
      cases hline : pfLineValue key (buf.takeWhile (· ≠ newline)) with
      | none => rfl
      | some value =>
          obtain ⟨-, heq⟩ := pfLineValue_eq_some_iff.mp hline
          have hle := (List.takeWhile_sublist (l := buf) (· ≠ newline)).length_le
          have hlen := congrArg List.length heq
          rw [List.length_append, List.length_cons] at hlen
          have hall : value.take (wide - 1) = value := List.take_of_length_le (by omega)
          simp [hall]

/-! ### The composed text -/

/-- Keys and their values, line by line. -/
def profileText (fields : List (List UInt8 × List UInt8)) : List UInt8 :=
  (fields.map fun f => pfLine f.1 f.2).flatten

theorem pfContent_eq (uname host avatar email pass : List UInt8) :
    pfContent uname host avatar email pass =
      profileText [(keyUsername, uname), (keyHostname, host), (keyAvatar, avatar),
        (keyEmail, email), (keyPassword, pass)] := by
  simp [pfContent, profileText]

/-- The line of a key is found, whatever stands behind the text. -/
theorem pfExtract_fields {fields : List (List UInt8 × List UInt8)} {value rest : List UInt8}
    {outCap : Nat}
    (hclean : ∀ f ∈ fields, colon ∉ f.1 ∧ newline ∉ f.1 ∧ newline ∉ f.2)
    (hkeys : (fields.map Prod.fst).Nodup) (hmem : (key, value) ∈ fields) (hne : value ≠ []) :
    pfExtract (profileText fields ++ rest) key outCap = some (value.take (outCap - 1)) := by
  have hkey := (hclean _ hmem).1
  induction fields with
  | nil => cases hmem
  | cons f fields ih =>
      obtain ⟨hcolon, hnl, hvalue⟩ := hclean f List.mem_cons_self
      have htext : profileText (f :: fields) ++ rest =
          pfLine f.1 f.2 ++ (profileText fields ++ rest) := by simp [profileText]
      rw [List.map_cons, List.nodup_cons] at hkeys
      rw [htext, pfExtract_line hkey hcolon hnl hvalue]
      rcases List.mem_cons.mp hmem with hhead | htail
      · rw [← hhead, if_pos ⟨rfl, hne⟩]
      · have hother : f.1 ≠ key := fun h => hkeys.1 (h ▸ List.mem_map_of_mem htail)
        rw [if_neg fun h => hother h.1]
        exact ih (fun g hg => hclean g (List.mem_cons_of_mem _ hg)) hkeys.2 htail

/-! ### The file -/

section File

variable {fs : Ramfs} {user : List UInt8}

theorem ramfsRead_front {i : Nat} (hfile : fs.IsFile i) (n : Nat) :
    ramfsRead fs i 0 n = (((((fs i).content.take n).length : Nat) : Int), (fs i).content.take n) := by
  rw [ramfsRead_content hfile.1 hfile.2.1, hfile.2.2, if_neg Bool.false_ne_true, List.drop_zero]

/-- A profile that can be read is the text of a file. -/
theorem pfRead_eq_some_iff {cap : Nat} {cfg : List UInt8} :
    pfRead fs user cap = some cfg ↔
      ∃ path i, userpfPath user 128 = some path ∧ ramfsOpen fs (some path) = some i ∧
        fs.IsFile i ∧ cfg = cStrOf ((fs i).content.take (cap - 1)) := by
  unfold pfRead
  constructor
  · intro h
    cases hpath : userpfPath user 128 with
    | none =>
        rw [hpath] at h
        cases h
    | some path =>
        rw [hpath] at h
        dsimp only at h
        cases hopen : ramfsOpen fs (some path) with
        | none =>
            rw [hopen] at h
            cases h
        | some i =>
            rw [hopen] at h
            dsimp only at h
            obtain ⟨hlt, huse⟩ := ramfsOpen_some hopen
            by_cases hdir : (fs i).isDir = true
            · rw [ramfsRead_content hlt huse, if_pos hdir] at h
              simp at h
            · have hfile : fs.IsFile i := ⟨hlt, huse, Bool.eq_false_iff.mpr hdir⟩
              rw [ramfsRead_front hfile] at h
              dsimp only at h
              rw [if_neg (by omega)] at h
              exact ⟨path, i, rfl, hopen, hfile, (Option.some.inj h).symm⟩
  · rintro ⟨path, i, hpath, hopen, hfile, rfl⟩
    rw [hpath]
    dsimp only
    rw [hopen]
    dsimp only
    rw [ramfsRead_front hfile]
    dsimp only
    rw [if_neg (by omega)]

theorem content_written_front (f : RamfsFile) {text : List UInt8}
    (hlen : text.length < ramfsFileCapacity) :
    (f.written 0 text).content = text ++ f.content.drop text.length := by
  have hcap : ramfsFileCapacity = 4096 := rfl
  have hto : toWrite 0 text.length = text.length := by
    rw [toWrite_of_lt (by omega) (by omega)]
    omega
  rw [(content_written_iff f 0 text).mpr fun o _ ho => absurd ho (by omega), hto]
  simp [splice]

theorem zero_not_mem_cStrOf (buf : List UInt8) : 0 ∉ cStrOf buf := not_mem_takeWhile buf

/-- A text that is written is read back, with what is left of the old one behind it. -/
theorem pfWrite_read (h : RamfsOk fs) {cap : Nat} {cfg text : List UInt8}
    (hread : pfRead fs user cap = some cfg) (htext : 0 ∉ text)
    (hlen : text.length < lightshellMaxCfg) :
    ∃ fs' rest, pfWrite fs user text = some (fs', 0) ∧
      pfRead fs' user lightshellMaxCfg = some (text ++ rest) := by
  obtain ⟨path, i, hpath, hopen, hfile, -⟩ := pfRead_eq_some_iff.mp hread
  have hmax : lightshellMaxCfg = 1024 := rfl
  have hcap : ramfsFileCapacity = 4096 := rfl
  have hto : toWrite 0 text.length = text.length := by
    rw [toWrite_of_lt (by omega) (by omega)]
    omega
  have hwrite : ramfsWrite fs i 0 text =
      some (Function.update fs i ((fs i).written 0 text), (text.length : Int)) := by
    rw [h.write_eq hfile.1 hfile.2.1, hto, hfile.2.2, if_neg (by simp; omega), if_neg (by omega)]
  refine ⟨Function.update fs i ((fs i).written 0 text),
    cStrOf (((fs i).content.drop text.length).take (lightshellMaxCfg - 1 - text.length)), ?_, ?_⟩
  · unfold pfWrite
    rw [hpath]
    dsimp only
    rw [hopen]
    dsimp only
    rw [hwrite, Option.map_some]
    dsimp only
    rw [if_pos (by omega)]
  · refine pfRead_eq_some_iff.mpr ⟨path, i, hpath, ?_, ?_, ?_⟩
    · rw [ramfsOpen_written, hopen]
    · unfold Ramfs.IsFile
      rw [Function.update_self]
      exact hfile
    · have hall : text.take (lightshellMaxCfg - 1) = text := List.take_of_length_le (by omega)
      rw [Function.update_self, content_written_front _ (by omega), List.take_append, hall,
        cStrOf_append htext]

end File

/-! ### The fields -/

/-- A string without a line break that fits a buffer of this size. -/
structure FitsLine (cap : Nat) (s : List UInt8) : Prop where
  noNul : 0 ∉ s
  noNewline : newline ∉ s
  length : s.length < cap

theorem FitsLine.copy {cap : Nat} {s : List UInt8} (h : FitsLine cap s) {n : Nat} (hn : 0 < n) :
    FitsLine n (strCopy n s) := by
  refine ⟨fun hb => h.noNul (List.mem_of_mem_take hb),
    fun hb => h.noNewline (List.mem_of_mem_take hb), ?_⟩
  have hle := List.length_take_le (n - 1) s
  unfold strCopy
  omega

theorem FitsLine.field {cap n : Nat} {cfg dflt : List UInt8} (hcfg : 0 ∉ cfg)
    (h : FitsLine cap dflt) (hn : 0 < n) (key : List UInt8) :
    FitsLine n (pfField cfg key dflt n) := by
  unfold pfField
  cases hvalue : pfExtract cfg key n with
  | none => exact h.copy hn
  | some value =>
      obtain ⟨hnl, hsub, hlen⟩ := pfExtract_some hvalue
      refine ⟨fun hb => hcfg (hsub hb), hnl, ?_⟩
      rw [Option.getD_some]
      omega

/-- A value that fits the buffer of its field is carried over. -/
theorem pfField_eq {n : Nat} {cfg dflt value : List UInt8} (hcfg : cfg.length < lightshellMaxCfg)
    (hvalue : pfExtract cfg key lightshellMaxCfg = some value) (hfits : value.length < n) :
    pfField cfg key dflt n = value := by
  unfold pfField
  rw [pfExtract_take hcfg, hvalue, Option.map_some, Option.getD_some]
  exact List.take_of_length_le (by omega)

theorem pfLine_clean {k v : List UInt8} (hk : 0 ∉ k) (hv : 0 ∉ v) : 0 ∉ pfLine k v := by
  have hcolon : (0 : UInt8) ≠ colon := by decide
  have hnl : (0 : UInt8) ≠ newline := by decide
  simp [pfLine, hk, hv, hcolon, hnl]

/-- The values of a profile, each fit for the buffer it is kept in. -/
structure Profile where
  uname : List UInt8
  host : List UInt8
  avatar : List UInt8
  email : List UInt8
  pass : List UInt8
  fitsUname : FitsLine lightshellMaxUser uname
  fitsHost : FitsLine hostCap host
  fitsAvatar : FitsLine avatarCap avatar
  fitsEmail : FitsLine emailCap email
  fitsPass : FitsLine lightshellMaxLine pass

namespace Profile

def fields (r : Profile) : List (List UInt8 × List UInt8) :=
  [(keyUsername, r.uname), (keyHostname, r.host), (keyAvatar, r.avatar), (keyEmail, r.email),
    (keyPassword, r.pass)]

def text (r : Profile) : List UInt8 := pfContent r.uname r.host r.avatar r.email r.pass

theorem text_clean (r : Profile) : 0 ∉ r.text := by
  have hkeys : ∀ k ∈ [keyUsername, keyHostname, keyAvatar, keyEmail, keyPassword], 0 ∉ k := by
    decide
  unfold text pfContent
  simp only [List.mem_append, not_or]
  refine ⟨⟨⟨⟨?_, ?_⟩, ?_⟩, ?_⟩, ?_⟩
  · exact pfLine_clean (hkeys _ (by simp)) r.fitsUname.noNul
  · exact pfLine_clean (hkeys _ (by simp)) r.fitsHost.noNul
  · exact pfLine_clean (hkeys _ (by simp)) r.fitsAvatar.noNul
  · exact pfLine_clean (hkeys _ (by simp)) r.fitsEmail.noNul
  · exact pfLine_clean (hkeys _ (by simp)) r.fitsPass.noNul

theorem length_text (r : Profile) : r.text.length < lightshellMaxCfg := by
  have huname : r.uname.length < 32 := r.fitsUname.length
  have hhost : r.host.length < 64 := r.fitsHost.length
  have havatar : r.avatar.length < 64 := r.fitsAvatar.length
  have hemail : r.email.length < 128 := r.fitsEmail.length
  have hpass : r.pass.length < 256 := r.fitsPass.length
  have hkeys : keyUsername.length = 8 ∧ keyHostname.length = 8 ∧ keyAvatar.length = 6 ∧
      keyEmail.length = 5 ∧ keyPassword.length = 8 := by decide
  have hmax : lightshellMaxCfg = 1024 := rfl
  simp [text, pfContent, pfLine, hkeys]
  omega

/-- A profile in front of a text is what is found in it. -/
theorem extract_text (r : Profile) {value rest : List UInt8} {outCap : Nat}
    (hmem : (key, value) ∈ r.fields) (hne : value ≠ []) :
    pfExtract (r.text ++ rest) key outCap = some (value.take (outCap - 1)) := by
  have hkeys : ∀ k ∈ [keyUsername, keyHostname, keyAvatar, keyEmail, keyPassword],
      colon ∉ k ∧ newline ∉ k := by decide
  rw [text, pfContent_eq]
  have hdistinct : [keyUsername, keyHostname, keyAvatar, keyEmail, keyPassword].Nodup := by decide
  refine pfExtract_fields (fun f hf => ?_) hdistinct hmem hne
  simp only [List.mem_cons, List.not_mem_nil, or_false] at hf
  rcases hf with rfl | rfl | rfl | rfl | rfl
  · exact ⟨(hkeys _ (by simp)).1, (hkeys _ (by simp)).2, r.fitsUname.noNewline⟩
  · exact ⟨(hkeys _ (by simp)).1, (hkeys _ (by simp)).2, r.fitsHost.noNewline⟩
  · exact ⟨(hkeys _ (by simp)).1, (hkeys _ (by simp)).2, r.fitsAvatar.noNewline⟩
  · exact ⟨(hkeys _ (by simp)).1, (hkeys _ (by simp)).2, r.fitsEmail.noNewline⟩
  · exact ⟨(hkeys _ (by simp)).1, (hkeys _ (by simp)).2, r.fitsPass.noNewline⟩

end Profile

/-! ### Writing a profile -/

/-- The whole value of a key in the text of a profile. -/
def profileValue (fs : Ramfs) (user key : List UInt8) : Option (List UInt8) :=
  (pfRead fs user lightshellMaxCfg).bind fun cfg => pfExtract cfg key lightshellMaxCfg

/-- The fields and the sizes of the buffers they are kept in. -/
def profileBuffers : List (List UInt8 × Nat) :=
  [(keyUsername, lightshellMaxUser), (keyHostname, hostCap), (keyAvatar, avatarCap),
    (keyEmail, emailCap), (keyPassword, lightshellMaxPass)]

/-- Every field but `key` that had a value shorter than its buffer has it still. -/
def KeepsFields (fs fs' : Ramfs) (user key : List UInt8) : Prop :=
  ∀ other cap value, (other, cap) ∈ profileBuffers → other ≠ key →
    profileValue fs user other = some value → value ≠ [] → value.length < cap →
    profileValue fs' user other = some value

/-- A profile has the values of a text, but for `key`. -/
structure Profile.Carries (r : Profile) (cfg key : List UInt8) : Prop where
  uname : key ≠ keyUsername → ∃ d, r.uname = pfField cfg keyUsername d lightshellMaxUser
  host : key ≠ keyHostname → ∃ d, r.host = pfField cfg keyHostname d hostCap
  avatar : key ≠ keyAvatar → ∃ d, r.avatar = pfField cfg keyAvatar d avatarCap
  email : key ≠ keyEmail → ∃ d, r.email = pfField cfg keyEmail d emailCap
  pass : key ≠ keyPassword → ∃ d, r.pass = pfField cfg keyPassword d lightshellMaxPass

theorem Profile.Carries.mem_fields {r : Profile} {cfg other value : List UInt8} {cap : Nat}
    (h : r.Carries cfg key) (hcfg : cfg.length < lightshellMaxCfg)
    (hother : (other, cap) ∈ profileBuffers) (hne : other ≠ key)
    (hvalue : pfExtract cfg other lightshellMaxCfg = some value) (hfits : value.length < cap) :
    (other, value) ∈ r.fields := by
  unfold profileBuffers at hother
  simp only [List.mem_cons, Prod.mk.injEq, List.not_mem_nil, or_false] at hother
  unfold Profile.fields
  rcases hother with ⟨rfl, rfl⟩ | ⟨rfl, rfl⟩ | ⟨rfl, rfl⟩ | ⟨rfl, rfl⟩ | ⟨rfl, rfl⟩
  · obtain ⟨d, hd⟩ := h.uname hne.symm
    rw [hd, pfField_eq hcfg hvalue hfits]
    simp
  · obtain ⟨d, hd⟩ := h.host hne.symm
    rw [hd, pfField_eq hcfg hvalue hfits]
    simp
  · obtain ⟨d, hd⟩ := h.avatar hne.symm
    rw [hd, pfField_eq hcfg hvalue hfits]
    simp
  · obtain ⟨d, hd⟩ := h.email hne.symm
    rw [hd, pfField_eq hcfg hvalue hfits]
    simp
  · obtain ⟨d, hd⟩ := h.pass hne.symm
    rw [hd, pfField_eq hcfg hvalue hfits]
    simp

section Writing

variable {fs : Ramfs} {user cfg : List UInt8}

theorem pfRead_clean (hread : pfRead fs user lightshellMaxCfg = some cfg) :
    0 ∉ cfg ∧ cfg.length < lightshellMaxCfg := by
  obtain ⟨path, i, -, -, -, rfl⟩ := pfRead_eq_some_iff.mp hread
  have hmax : lightshellMaxCfg = 1024 := rfl
  have hle := (List.takeWhile_sublist (l := (fs i).content.take (lightshellMaxCfg - 1))
    (· ≠ 0)).length_le
  refine ⟨zero_not_mem_cStrOf _, ?_⟩
  unfold cStrOf
  rw [List.length_take] at hle
  omega

/-- The text of a profile is written.  What it carries over from the old text is kept. -/
theorem pfCompose_keeps (h : RamfsOk fs) (hread : pfRead fs user lightshellMaxCfg = some cfg)
    {r : Profile} (hcarries : r.Carries cfg key) :
    ∃ fs' rest, pfCompose fs user r.uname r.host r.avatar r.email r.pass = some (fs', 0) ∧
      pfRead fs' user lightshellMaxCfg = some (r.text ++ rest) ∧ KeepsFields fs fs' user key := by
  obtain ⟨-, hlen⟩ := pfRead_clean hread
  obtain ⟨fs', rest, hwrite, hback⟩ := pfWrite_read h hread r.text_clean r.length_text
  refine ⟨fs', rest, ?_, hback, fun other cap value hother hne hvalue hsome hfits => ?_⟩
  · exact (if_neg (Nat.not_le_of_lt r.length_text)).trans hwrite
  · unfold profileValue at hvalue ⊢
    rw [hread, Option.bind_some] at hvalue
    have hmem := hcarries.mem_fields hlen hother hne hvalue hfits
    have hcap : value.length ≤ lightshellMaxCfg - 1 := (pfExtract_some hvalue).2.2
    rw [hback, Option.bind_some, r.extract_text hmem hsome, List.take_of_length_le hcap]

theorem FitsLine.mono {cap n : Nat} {s : List UInt8} (h : FitsLine cap s) (hle : cap ≤ n) :
    FitsLine n s :=
  ⟨h.noNul, h.noNewline, Nat.lt_of_lt_of_le h.length hle⟩

theorem default_fits {d : List UInt8}
    (hd : d ∈ [defaultHost, defaultAvatar, defaultEmail, defaultPass]) :
    FitsLine lightshellMaxLine d := by
  have hall : ∀ d ∈ [defaultHost, defaultAvatar, defaultEmail, defaultPass],
      0 ∉ d ∧ newline ∉ d ∧ d.length < lightshellMaxLine := by decide
  exact ⟨(hall d hd).1, (hall d hd).2.1, (hall d hd).2.2⟩

/-- The profile that is read from a text, with another password. -/
def profileOf (hcfg : 0 ∉ cfg) (huser : FitsLine lightshellMaxLine user) {pass : List UInt8}
    (hpass : FitsLine lightshellMaxLine pass) : Profile where
  uname := pfField cfg keyUsername user lightshellMaxUser
  host := pfField cfg keyHostname defaultHost hostCap
  avatar := pfField cfg keyAvatar defaultAvatar avatarCap
  email := pfField cfg keyEmail defaultEmail emailCap
  pass := pass
  fitsUname := huser.field hcfg (by decide) _
  fitsHost := (default_fits (by simp)).field hcfg (by decide) _
  fitsAvatar := (default_fits (by simp)).field hcfg (by decide) _
  fitsEmail := (default_fits (by simp)).field hcfg (by decide) _
  fitsPass := hpass

theorem profileOf_carries (hcfg : 0 ∉ cfg) (huser : FitsLine lightshellMaxLine user)
    {pass : List UInt8} (hpass : FitsLine lightshellMaxLine pass) :
    (profileOf hcfg huser hpass).Carries cfg keyPassword :=
  ⟨fun _ => ⟨_, rfl⟩, fun _ => ⟨_, rfl⟩, fun _ => ⟨_, rfl⟩, fun _ => ⟨_, rfl⟩,
    fun h => absurd rfl h⟩

/-- Setting a password ends, and what it sets is read back. -/
theorem pfSetPassword_spec (h : RamfsOk fs) (huser : FitsLine lightshellMaxLine user)
    {pass : List UInt8} (hpass : FitsLine lightshellMaxLine pass) :
    pfSetPassword fs user pass = some (fs, -1) ∨
      ∃ fs', pfSetPassword fs user pass = some (fs', 0) ∧
        (pass ≠ [] → ∀ cap, pass.length < cap → pfGetPassword fs' user cap = some pass) ∧
        KeepsFields fs fs' user keyPassword := by
  cases hread : pfRead fs user lightshellMaxCfg with
  | none =>
      left
      unfold pfSetPassword
      rw [hread]
  | some cfg =>
      right
      obtain ⟨hcfg, -⟩ := pfRead_clean hread
      obtain ⟨fs', rest, hwrite, hback, hkeeps⟩ :=
        pfCompose_keeps h hread (profileOf_carries hcfg huser hpass)
      refine ⟨fs', ?_, fun hne cap hcap => ?_, hkeeps⟩
      · unfold pfSetPassword
        rw [hread]
        exact hwrite
      · have hmem : (keyPassword, pass) ∈ (profileOf hcfg huser hpass).fields := by
          simp [Profile.fields, profileOf]
        unfold pfGetPassword
        rw [hback, Option.bind_some, Profile.extract_text _ hmem hne]
        exact congrArg some (List.take_of_length_le (by omega))

/-- Setting a field ends, and does nothing to the others. -/
theorem pfSetField_spec (h : RamfsOk fs) (huser : FitsLine lightshellMaxLine user)
    {value : List UInt8} (hvalue : FitsLine lightshellMaxLine value) (key : List UInt8) :
    pfSetField fs user key value = some (fs, -1) ∨
      ∃ fs', pfSetField fs user key value = some (fs', 0) ∧ KeepsFields fs fs' user key := by
  cases hread : pfRead fs user lightshellMaxCfg with
  | none =>
      left
      unfold pfSetField
      rw [hread]
  | some cfg =>
      obtain ⟨hcfg, -⟩ := pfRead_clean hread
      have hpass : FitsLine lightshellMaxLine
          (pfField cfg keyPassword defaultPass lightshellMaxPass) :=
        ((default_fits (by simp)).field hcfg (by decide) _).mono (by decide)
      let r := profileOf hcfg huser hpass
      unfold pfSetField
      rw [hread]
      dsimp only
      by_cases hhost : key = keyHostname
      · obtain rfl := hhost
        let r' : Profile :=
          { r with host := strCopy hostCap value, fitsHost := hvalue.copy (by decide) }
        have hcarries : r'.Carries cfg keyHostname :=
          ⟨fun _ => ⟨_, rfl⟩, fun h => absurd rfl h, fun _ => ⟨_, rfl⟩, fun _ => ⟨_, rfl⟩,
            fun _ => ⟨_, rfl⟩⟩
        obtain ⟨fs', rest, hwrite, -, hkeeps⟩ := pfCompose_keeps h hread hcarries
        rw [if_pos rfl]
        exact .inr ⟨fs', hwrite, hkeeps⟩
      rw [if_neg hhost]
      by_cases havatar : key = keyAvatar
      · obtain rfl := havatar
        let r' : Profile :=
          { r with avatar := strCopy avatarCap value, fitsAvatar := hvalue.copy (by decide) }
        have hcarries : r'.Carries cfg keyAvatar :=
          ⟨fun _ => ⟨_, rfl⟩, fun _ => ⟨_, rfl⟩, fun h => absurd rfl h, fun _ => ⟨_, rfl⟩,
            fun _ => ⟨_, rfl⟩⟩
        obtain ⟨fs', rest, hwrite, -, hkeeps⟩ := pfCompose_keeps h hread hcarries
        rw [if_pos rfl]
        exact .inr ⟨fs', hwrite, hkeeps⟩
      rw [if_neg havatar]
      by_cases hemail : key = keyEmail
      · obtain rfl := hemail
        let r' : Profile :=
          { r with email := strCopy emailCap value, fitsEmail := hvalue.copy (by decide) }
        have hcarries : r'.Carries cfg keyEmail :=
          ⟨fun _ => ⟨_, rfl⟩, fun _ => ⟨_, rfl⟩, fun _ => ⟨_, rfl⟩, fun h => absurd rfl h,
            fun _ => ⟨_, rfl⟩⟩
        obtain ⟨fs', rest, hwrite, -, hkeeps⟩ := pfCompose_keeps h hread hcarries
        rw [if_pos rfl]
        exact .inr ⟨fs', hwrite, hkeeps⟩
      · rw [if_neg hemail]
        exact .inl rfl

end Writing

/--
**A profile is read back as it was written.**  After every run, setting a password or a field of
the user that is logged in ends.  If it succeeds, a password is what is read afterwards, and each
other field that had a value shorter than its buffer has it still.
-/
theorem profile_round_trip {fs₀ : Ramfs} {calls : List RamfsCall} {fs : Ramfs}
    (hrun : Executes Ramfs.step (ramfsInit fs₀) calls fs) {user value : List UInt8}
    (huser : FitsLine lightshellMaxUser user) (hvalue : FitsLine lightshellMaxLine value) :
    (∃ fs' ret, pfSetPassword fs user value = some (fs', ret) ∧ (ret = 0 →
      (value ≠ [] → ∀ cap, value.length < cap → pfGetPassword fs' user cap = some value) ∧
        KeepsFields fs fs' user keyPassword)) ∧
      ∀ key, ∃ fs' ret, pfSetField fs user key value = some (fs', ret) ∧
        (ret = 0 → KeepsFields fs fs' user key) := by
  have hok := ramfsOk_of_run hrun
  have huser : FitsLine lightshellMaxLine user := huser.mono (by decide)
  constructor
  · rcases pfSetPassword_spec hok huser hvalue with hfail | ⟨fs', hset, hpass, hkeeps⟩
    · exact ⟨fs, -1, hfail, fun hret => absurd hret (by decide)⟩
    · exact ⟨fs', 0, hset, fun _ => ⟨hpass, hkeeps⟩⟩
  · intro key
    rcases pfSetField_spec hok huser hvalue key with hfail | ⟨fs', hset, hkeeps⟩
    · exact ⟨fs, -1, hfail, fun hret => absurd hret (by decide)⟩
    · exact ⟨fs', 0, hset, fun _ => hkeeps⟩

/-- The calls that make a profile: a host of two letters and a password of four. -/
def profileCalls : List RamfsCall :=
  [.mkdir (some ['/', 'b', 'i', 'n']),
    .mkdir (some ['/', 'b', 'i', 'n', '/', 'c', 'o', 'n', 'f', 'i', 'g']),
    .mkdir (some ['/', 'b', 'i', 'n', '/', 'c', 'o', 'n', 'f', 'i', 'g', '/', 'g']),
    .create (userpfPath (bytesOf ['g']) 128),
    .write 3 0 (pfLine keyHostname (bytesOf ['p', 'c']) ++
      pfLine keyPassword (bytesOf ['l', 'o', 'n', 'g']))]

/-- The table after some calls. -/
def ramfsAfter (fs : Ramfs) (calls : List RamfsCall) : Ramfs :=
  calls.foldl (fun fs c => ((fs.call c).map Prod.fst).getD fs) fs

theorem profileCalls_run :
    Executes Ramfs.step (ramfsInit blankRamfs) profileCalls
      (ramfsAfter (ramfsInit blankRamfs) profileCalls) :=
  .cons ⟨_, rfl⟩ (.cons ⟨_, rfl⟩ (.cons ⟨_, rfl⟩ (.cons ⟨_, rfl⟩ (.cons ⟨_, rfl⟩ (.nil _)))))

/-- A password of two letters in place of the longer one. -/
theorem profile_round_trip_shorter :
    ∃ fs', pfSetPassword (ramfsAfter (ramfsInit blankRamfs) profileCalls) (bytesOf ['g'])
        (bytesOf ['n', 'o']) = some (fs', 0) ∧
      pfGetPassword fs' (bytesOf ['g']) lightshellMaxPass = some (bytesOf ['n', 'o']) ∧
      profileValue fs' (bytesOf ['g']) keyHostname = some (bytesOf ['p', 'c']) := by
  have huser : FitsLine lightshellMaxUser (bytesOf ['g']) := ⟨by decide, by decide, by decide⟩
  have hpw : FitsLine lightshellMaxLine (bytesOf ['n', 'o']) := ⟨by decide, by decide, by decide⟩
  obtain ⟨⟨fs', ret, hset, hback⟩, -⟩ := profile_round_trip profileCalls_run huser hpw
  have hret : (pfSetPassword (ramfsAfter (ramfsInit blankRamfs) profileCalls) (bytesOf ['g'])
      (bytesOf ['n', 'o'])).map Prod.snd = some 0 := by decide +kernel
  rw [hset] at hret
  obtain rfl : ret = 0 := Option.some.inj hret
  obtain ⟨hpass, hkeeps⟩ := hback rfl
  have hhost : profileValue (ramfsAfter (ramfsInit blankRamfs) profileCalls) (bytesOf ['g'])
      keyHostname = some (bytesOf ['p', 'c']) := by decide +kernel
  exact ⟨fs', hset, hpass (by decide) _ (by decide),
    hkeeps keyHostname hostCap _ (by decide) (by decide) hhost (by decide) (by decide)⟩

end BrightS
