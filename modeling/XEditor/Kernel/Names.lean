import XEditor.Kernel.FileSystem

/-!
# Names in paths and directories

Three functions cut names to `DIRSIZ` bytes: `skipelem` takes them out of a path,
`strncpy` stores them in an entry and `strncmp` compares them.  A name that fills the
buffer or the entry has no terminator there.
-/

namespace XEditor.Kernel

open List Option

/-! ## Splitting a path -/

/-- The parts of a path between its slashes that are not empty. -/
def components (path : Path) : List Name :=
  (path.splitOn slash).filter fun word => !word.isEmpty

/-- The calls of `skipelem` that the loop of `namex` makes, each with the rest of the
path that the one before has returned; the last one finds no element. -/
def Skips : Path → List (Name × Path) → Prop
  | path, [] => skipelem path = none
  | path, call :: calls => skipelem path = some call ∧ Skips call.2 calls

theorem components_slash (path : Path) : components (slash :: path) = components path := by
  rw [components, splitOn_cons_eq_if_modifyHead, if_pos (beq_self_eq_true slash)]
  rfl

theorem components_dropWhile (path : Path) :
    components (path.dropWhile (· == slash)) = components path := by
  induction path with
  | nil => rfl
  | cons byte path ih =>
    by_cases isSlash : byte = slash
    · rw [isSlash, components_slash, dropWhile_cons_of_pos (by simp), ih]
    · rw [dropWhile_cons_of_neg (by simpa using isSlash)]

/-- A word in front of a slash or the end is the first component. -/
theorem components_append {word behind : Path} (plain : ∀ byte ∈ word, (byte == slash) = false)
    (filled : word ≠ []) (ends : ∀ byte ∈ behind.head?, byte = slash) :
    components (word ++ behind) = word :: components behind := by
  cases behind with
  | nil =>
    rw [append_nil, components, splitOn_eq_singleton_of_beq_eq_false plain,
      filter_cons_of_pos (by simpa using filled)]
    rfl
  | cons separator others =>
    obtain rfl := ends separator rfl
    rw [components_slash, components, splitOn_append_cons_of_beq _ _ (beq_self_eq_true slash),
      splitOn_eq_singleton_of_beq_eq_false plain, singleton_append,
      filter_cons_of_pos (by simpa using filled)]
    rfl

/-- A call finds the first component and leaves the others. -/
theorem skipelem_components (path : Path) :
    (skipelem path = none ∧ components path = []) ∨
      ∃ word rest, skipelem path = some (word.take dirsiz, rest) ∧
        components path = word :: components rest := by
  rw [← components_dropWhile path, skipelem]
  cases start : path.dropWhile (· == slash) with
  | nil => exact .inl ⟨rfl, rfl⟩
  | cons byte tail =>
    have notSlash := head_dropWhile_not (· == slash) (l := path) (by rw [start]; simp)
    simp only [start, head_cons] at notSlash
    refine .inr ⟨_, _, rfl, ?_⟩
    rw [components_dropWhile, ← components_append, takeWhile_append_dropWhile]
    · exact fun other isIn => by simpa using mem_takeWhile_imp isIn
    · rw [takeWhile_cons_of_pos (by simp [bne, notSlash])]
      simp
    · intro other isHead
      have stopped := head?_dropWhile_not (· != slash) (byte :: tail)
      rw [mem_def.mp isHead] at stopped
      simpa using stopped

/-- The elements of a path are its components, cut to `DIRSIZ` bytes. -/
theorem elements_eq_components (path : Path) :
    elements path = (components path).map (take dirsiz) := by
  induction size : path.length using Nat.strong_induction_on generalizing path with
  | _ size ih =>
    subst size
    rcases skipelem_components path with ⟨ended, split⟩ | ⟨word, rest, skipped, split⟩
    · rw [elements_eq_nil ended, split]
      rfl
    · rw [elements_eq_cons skipped, ih _ (skipelem_length skipped) rest rfl, split]
      rfl

/-- The loop ends behind the components, and the rest is empty at the last one. -/
theorem exists_skips (path : Path) :
    ∃ calls, Skips path calls ∧ calls.map Prod.fst = elements path ∧
      ∀ i call, calls[i]? = some call → (call.2 = [] ↔ i + 1 = calls.length) := by
  induction size : path.length using Nat.strong_induction_on generalizing path with
  | _ size ih =>
    subst size
    cases skipped : skipelem path with
    | none => exact ⟨[], skipped, (elements_eq_nil skipped).symm, nofun⟩
    | some call =>
      obtain ⟨calls, skips, names, lasts⟩ := ih _ (skipelem_length skipped) call.2 rfl
      refine ⟨call :: calls, ⟨skipped, skips⟩, ?_, ?_⟩
      · rw [elements_eq_cons skipped, map_cons, names]
      rintro (_ | i) next isNext
      · obtain rfl := some.inj isNext
        rw [← elements_rest_eq_nil_iff skipped, ← names, map_eq_nil_iff, length_cons,
          ← length_eq_zero_iff]
        omega
      · rw [length_cons, Nat.add_right_cancel_iff]
        exact lasts i next isNext

/-! ## Names in entries -/

/-- The bytes of a string before its terminator. -/
def cstr (bytes : List UInt8) : Name :=
  bytes.takeWhile (· != 0)

/-- The part of a string that counts as a name. -/
def cutName (bytes : List UInt8) : Name :=
  (cstr bytes).take dirsiz

/-- Source `strncmp`.  The terminator follows on the bytes of a list. -/
def strncmp : List UInt8 → List UInt8 → Nat → Int
  | _, _, 0 => 0
  | p, q, n + 1 =>
    if p.headD 0 ≠ 0 ∧ p.headD 0 = q.headD 0 then strncmp p.tail q.tail n
    else (p.headD 0).toNat - (q.headD 0).toNat

/-- Source `strncpy`: the `n` bytes that are written. -/
def strncpy : List UInt8 → Nat → List UInt8
  | _, 0 => []
  | t, n + 1 => if t.headD 0 = 0 then replicate (n + 1) 0 else t.headD 0 :: strncpy t.tail n

/-- The buffer for a name after `skipelem` has moved an element there: the terminator
is written only if it fits. -/
def moveElement (name element : List UInt8) : List UInt8 :=
  if dirsiz ≤ element.length then element.take dirsiz ++ name.drop dirsiz
  else element ++ 0 :: name.drop (element.length + 1)

theorem cstr_eq (bytes : List UInt8) :
    cstr bytes = if bytes.headD 0 = 0 then [] else bytes.headD 0 :: cstr bytes.tail := by
  cases bytes with
  | nil => rfl
  | cons byte bytes =>
    rw [cstr, takeWhile_cons]
    by_cases nul : byte = 0 <;> simp [nul, cstr]

theorem strncmp_eq_zero_iff (p q : List UInt8) (n : Nat) :
    strncmp p q n = 0 ↔ (cstr p).take n = (cstr q).take n := by
  induction n generalizing p q with
  | zero => simp [strncmp]
  | succ n ih =>
    rw [strncmp, cstr_eq p, cstr_eq q]
    generalize p.headD 0 = a, q.headD 0 = b
    by_cases same : a = b
    · subst same
      by_cases ended : a = 0
      · simp [ended]
      · simp [ended, ih]
    · have stopped : ¬ ((a.toNat : Int) - b.toNat = 0) := by
        rwa [Int.sub_eq_zero, Int.natCast_inj, UInt8.toNat_inj]
      by_cases ended : a = 0 <;> by_cases endedToo : b = 0 <;> simp_all

theorem length_strncpy (t : List UInt8) (n : Nat) : (strncpy t n).length = n := by
  induction n generalizing t with
  | zero => rfl
  | succ n ih =>
    rw [strncpy]
    split
    · exact length_replicate
    · rw [length_cons, ih]

theorem cstr_strncpy (t : List UInt8) (n : Nat) : cstr (strncpy t n) = (cstr t).take n := by
  induction n generalizing t with
  | zero => rfl
  | succ n ih =>
    rw [strncpy, cstr_eq t]
    split
    · rfl
    · rename_i more
      rw [cstr_eq, headD_cons, tail_cons, ih, if_neg more]
      rfl

/-- Where `skipelem` has moved an element, the name is the element cut to `DIRSIZ`. -/
theorem cutName_moveElement (name : List UInt8) {element : List UInt8} (plain : 0 ∉ element) :
    cutName (moveElement name element) = element.take dirsiz := by
  have noNul {bytes : List UInt8} (part : bytes ⊆ element) (byte : UInt8) (isIn : byte ∈ bytes) :
      (byte != 0) = true := by
    rw [bne_iff_ne]
    rintro rfl
    exact plain (part isIn)
  rw [cutName, cstr, moveElement]
  split
  · rename_i long
    rw [takeWhile_append_of_pos (noNul (take_subset ..))]
    exact take_left' (length_take_of_le long)
  · rw [takeWhile_append_of_pos (noNul (Subset.refl _)), takeWhile_cons_of_neg (by decide),
      append_nil]

/-- Source `struct dirent`, with the bytes of its name. -/
structure RawDirent where
  inum : UInt16
  name : List UInt8
  full : name.length = dirsiz

/-- The entry with the name that is stored. -/
def RawDirent.entry (de : RawDirent) : Dirent :=
  ⟨de.inum.toNat, cstr de.name⟩

theorem RawDirent.entry_free_iff (de : RawDirent) : de.entry.inum = 0 ↔ de.inum = 0 :=
  UInt16.toNat_inj (b := 0)

/-- Source `dirlookup` over the entries from an offset on: the inode number and the
offset of the entry. -/
def rawLookup (name : List UInt8) : (off : Nat) → List RawDirent → Option (UInt16 × Nat)
  | _, [] => none
  | off, de :: rest =>
    if de.inum = 0 then rawLookup name (off + 16) rest
    else if strncmp name de.name dirsiz = 0 then some (de.inum, off)
    else rawLookup name (off + 16) rest

/-- The entry that `dirlink` writes. -/
def rawEntry (name : List UInt8) (inum : Nat) : RawDirent :=
  ⟨UInt16.ofNat inum, strncpy name dirsiz, length_strncpy name dirsiz⟩

/-- Source `dirlink`, with its results as in `dirlink`. -/
def rawLink (directory : List RawDirent) (name : List UInt8) (inum : Nat) :
    Option (Option (List RawDirent)) :=
  if (rawLookup name 0 directory).isSome then some none
  else
    let slot := (directory.findIdx? (·.inum == 0)).getD directory.length
    if slot < maxEntries then
      some (some (if slot < directory.length then directory.set slot (rawEntry name inum)
        else directory ++ [rawEntry name inum]))
    else none

/-- The inode number found under a name. -/
def lookupInum (directory : List RawDirent) (name : List UInt8) : Option Nat :=
  (rawLookup name 0 directory).map (·.1.toNat)

theorem entry_names_iff (de : RawDirent) (name : List UInt8) :
    de.entry.names (cutName name) = true ↔ de.inum ≠ 0 ∧ strncmp name de.name dirsiz = 0 := by
  have short : (cstr de.name).length ≤ dirsiz := by
    rw [← de.full]
    exact (takeWhile_sublist _).length_le
  rw [Dirent.names, Bool.and_eq_true, bne_iff_ne, beq_iff_eq, strncmp_eq_zero_iff, cutName,
    RawDirent.entry, take_of_length_le short, eq_comm (a := cstr de.name)]
  exact and_congr_left' (not_congr de.entry_free_iff)

/-- The bytes are looked up as the names that are stored. -/
theorem rawLookup_eq (name : List UInt8) (off : Nat) (directory : List RawDirent) :
    (rawLookup name off directory).map (·.1.toNat) =
      dirlookup (directory.map RawDirent.entry) (cutName name) := by
  induction directory generalizing off with
  | nil => rfl
  | cons de rest ih =>
    have named := entry_names_iff de name
    rw [rawLookup, map_cons, dirlookup, find?_cons]
    by_cases free : de.inum = 0
    · rw [if_pos free, ih, Bool.eq_false_iff.mpr fun names => (named.mp names).1 free]
      rfl
    by_cases same : strncmp name de.name dirsiz = 0
    · rw [if_neg free, if_pos same, named.mpr ⟨free, same⟩]
      rfl
    · rw [if_neg free, if_neg same, ih, Bool.eq_false_iff.mpr fun names => same (named.mp names).2]
      rfl

/-- The entry is written as one with the name cut to `DIRSIZ` bytes. -/
theorem rawLink_eq_some {directory written : List RawDirent} {name : List UInt8} {inum : Nat}
    (linked : rawLink directory name inum = some (some written)) :
    dirlookup (directory.map RawDirent.entry) (cutName name) = none ∧
      written.map RawDirent.entry = writeEntry (directory.map RawDirent.entry)
        (freeSlot (directory.map RawDirent.entry)) ⟨inum % 2 ^ 16, cutName name⟩ := by
  have slot_eq : freeSlot (directory.map RawDirent.entry) =
      (directory.findIdx? (·.inum == 0)).getD directory.length := by
    have free : (fun de : Dirent => de.inum == 0) ∘ RawDirent.entry = (·.inum == 0) := by
      funext de
      exact Bool.eq_iff_iff.mpr (by simpa using de.entry_free_iff)
    rw [freeSlot, findIdx?_map, free, length_map]
  have entry_eq : (rawEntry name inum).entry = ⟨inum % 2 ^ 16, cutName name⟩ := by
    rw [RawDirent.entry, rawEntry, cstr_strncpy]
    rfl
  unfold rawLink at linked
  split at linked
  · cases linked
  rename_i fresh
  simp only at linked
  rw [← slot_eq] at linked
  split at linked
  · rw [← rawLookup_eq name 0, map_eq_none_iff]
    refine ⟨by simpa using fresh, ?_⟩
    rw [← some.inj (some.inj linked), writeEntry, length_map, ← entry_eq]
    split
    · exact map_set
    · exact map_append
  · cases linked

/-- The calls of `skipelem` give the components of a path, cut to `DIRSIZ` bytes, and
an entry is found under the names that agree with its own in these bytes. -/
theorem names_exact :
    (∀ path, ∃ calls, Skips path calls ∧
      calls.map Prod.fst = (components path).map (take dirsiz) ∧
      ∀ i call, calls[i]? = some call → (call.2 = [] ↔ i + 1 = calls.length)) ∧
    (∀ name element, 0 ∉ element → cutName (moveElement name element) = element.take dirsiz) ∧
    ∀ directory name inum written, 0 < inum → inum < 2 ^ 16 →
      rawLink directory name inum = some (some written) → ∀ other,
        lookupInum written other =
          if cutName other = cutName name then some inum else lookupInum directory other := by
  refine ⟨fun path => ?_, fun name element => cutName_moveElement name, ?_⟩
  · rw [← elements_eq_components]
    exact exists_skips path
  intro directory name inum written positive small linked other
  obtain ⟨fresh, written_eq⟩ := rawLink_eq_some linked
  rw [Nat.mod_eq_of_lt small] at written_eq
  rw [lookupInum, lookupInum, rawLookup_eq, rawLookup_eq, written_eq,
    dirlookup_writeEntry fresh positive.ne']

/-- A name of fourteen bytes is found under a longer one that starts with it. -/
theorem names_exact_fourteen :
    let name : List UInt8 := replicate 14 97
    ∃ written, rawLink [] name 5 = some (some written) ∧
      lookupInum written (name ++ [98]) = some 5 ∧ lookupInum written (name.take 13) = none := by
  refine ⟨[rawEntry (replicate 14 97) 5], rfl, ?_, ?_⟩
  · exact names_exact.2.2 [] _ 5 _ (by decide) (by decide) rfl _
  · exact names_exact.2.2 [] _ 5 _ (by decide) (by decide) rfl _

/-! ## Paths in two parts -/

theorem elements_append_slash (first rest : Path) :
    elements (first ++ slash :: rest) = elements first ++ elements rest := by
  simp only [elements_eq_components, components]
  rw [splitOn_append_cons_of_beq _ _ (beq_self_eq_true slash), filter_append, map_append]

/-- A path leads where its two parts lead one after the other: `p/q` is what `q` is
after a change to the directory `p`. -/
theorem namei_append_slash_iff {state : State} {first rest : Path} {target : Nat}
    (filled : first ≠ []) (relative : rest.head? ≠ some slash) :
    namei state (first ++ slash :: rest) = some (some target) ↔
      ∃ middle, namei state first = some (some middle) ∧
        namei { state with cwd := middle } rest = some (some target) := by
  have start : startInum state (first ++ slash :: rest) = startInum state first := by
    obtain ⟨byte, others, rfl⟩ := exists_cons_of_ne_nil filled
    rfl
  simp only [namei_eq_some_iff, start, elements_append_slash, resolve, foldlM_append]
  rw [bind_eq_bind, bind_eq_some_iff]
  simp only [startInum, if_neg relative]
  rfl

/-- The file `f` in the directory `d` of the root. -/
theorem namei_append_slash_nested :
    namei ⟨[none, some ⟨.dir, 1, [⟨2, [100]⟩], []⟩, some ⟨.dir, 1, [⟨3, [102]⟩], []⟩,
      some ⟨.file, 1, [], []⟩], rootino, [], [], 0⟩ ([slash, 100] ++ slash :: [102]) =
        some (some 3) :=
  (namei_append_slash_iff (by decide) (by decide)).mpr ⟨2, by decide, by decide⟩

end XEditor.Kernel
