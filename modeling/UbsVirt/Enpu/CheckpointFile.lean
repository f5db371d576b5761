import Mathlib.Logic.Equiv.List
import Mathlib.Tactic.DeriveEncodable
import UbsVirt.Enpu.Restart

/-!
# The checkpoint file and an interrupted save

Saving the registry opens the checkpoint file for writing, which empties it, and then writes the
printed entries; a manager that dies in between leaves a prefix of the new text. Loading reads the
whole file and treats a text it cannot parse like a missing file. Source:
`enpu-manager/core/src/file_storage_adapter.c:24-305`. The entries themselves are those of
`UbsVirt.Enpu.Restart`.
-/

namespace UbsVirt.Enpu

open List CheckpointItem
open Encodable (encode decode encodek)

/-! ### The JSON library -/

/-- The newline that follows the printed text, `file_storage_adapter.c:116`. -/
def newline : UInt8 := 10

/-- A parsed JSON text as far as loading looks at it, `file_storage_adapter.c:184-193`: an array
of entries, an object with or without an array called `entries`, or anything else. -/
inductive JsonRoot where
  | array (items : List CheckpointItem)
  | object (entries : Option (List CheckpointItem))
  | other
  deriving DecidableEq, Repr

def JsonRoot.entries : JsonRoot → Option (List CheckpointItem)
  | .array items => some items
  | .object entries => entries
  | .other => none

/-- `cJSON_Print` and `cJSON_Parse`. A printed array is parsed back with or without the newline,
and no text that is cut off inside it parses. -/
structure CJson where
  print : List CheckpointItem → List UInt8
  parse : List UInt8 → Option JsonRoot
  print_ne_nil : ∀ items, print items ≠ []
  parse_take : ∀ items n, parse ((print items ++ [newline]).take n) =
    if n < (print items).length then none else some (.array items)

def CJson.text (json : CJson) (items : List CheckpointItem) : List UInt8 :=
  json.print items ++ [newline]

/-- The entries handed to the adapter: the registry holds at most `MAX_ALLOC_COUNT`,
`allocation_registry.c:80-83,104`. -/
structure SavedEntries where
  items : List CheckpointItem
  length_le : items.length ≤ maxAllocCount

def SavedEntries.allocs (l : SavedEntries) : List (Option Allocation) :=
  l.items.map CheckpointItem.load

/-! ### Saving -/

/-- What `file_adapter_save` does to the file system, one byte at a time. -/
inductive FileOp where
  | mkdir (dir : List Char)
  | fopen
  | write (byte : UInt8)
  | fclose
  deriving DecidableEq, Repr

open FileOp

/-- The checkpoint file after an operation; `none` when there is no such file. Opening it for
writing creates or empties it. -/
def FileOp.apply (file : Option (List UInt8)) : FileOp → Option (List UInt8)
  | .mkdir _ => file
  | .fopen => some []
  | .write byte => file.map (· ++ [byte])
  | .fclose => file

/-- The directory of a path: what stands before its last slash. -/
def parentDir (path : List Char) : List Char :=
  ((path.reverse.dropWhile (· ≠ '/')).drop 1).reverse

/-- The directories `ensure_parent_dir` creates, `file_storage_adapter.c:24-55`: every directory
on the way to the parent, unless that is the root or the working directory. -/
def ensuredDirs (path : List Char) : List (List Char) :=
  let tmp := parentDir path
  if tmp = [] then []
  else (range tmp.length).filterMap
    (fun i => if 1 ≤ i ∧ tmp[i]? = some '/' then some (tmp.take i) else none) ++ [tmp]

def saveOps (json : CJson) (path : List Char) (items : List CheckpointItem) : List FileOp :=
  (ensuredDirs path).map .mkdir ++ .fopen :: ((json.text items).map .write ++ [.fclose])

/-- The file after the first `k` operations of a save. -/
def cutSave (json : CJson) (path : List Char) (items : List CheckpointItem) (k : Nat)
    (file : Option (List UInt8)) : Option (List UInt8) :=
  ((saveOps json path items).take k).foldl apply file

/-- How the library calls of a save end: `adds` are the calls for each entry, of which the last
adds it to the array. A failing `fprintf` or `fclose` has written some of the bytes. -/
structure SaveCalls where
  createArray : Bool
  createObjects : Bool
  adds : Nat → Nat → Bool
  print : Bool
  mkdirs : Bool
  fopen : Bool
  fprintf : Option Nat
  fclose : Option Nat

/-- `file_adapter_save`, `file_storage_adapter.c:57-128`. -/
def fileAdapterSave (json : CJson) (num : JsonNumber) (path : List Char) (calls : SaveCalls)
    (entries : List Allocation) (file : Option (List UInt8)) : Status × Option (List UInt8) :=
  let items := savedItems num calls.adds entries
  if path = [] then (.fail, file)
  else if !calls.createArray then (.noResource, file)
  else if !calls.createObjects && !entries.isEmpty then (.noResource, file)
  else if !calls.print then (.fail, file)
  else if !calls.mkdirs && !(ensuredDirs path).isEmpty then (.fail, file)
  else if !calls.fopen then (.fail, file)
  else
    match calls.fprintf, calls.fclose with
    | some n, _ => (.fail, some ((json.text items).take n))
    | none, some n => (.fail, some ((json.text items).take n))
    | none, none => (.success, some (json.text items))

/-! ### Loading -/

/-- How the library calls of a load end. -/
structure LoadCalls where
  fopen : Bool
  seek : Bool
  calloc : Bool
  fread : Bool
  fclose : Bool
  deriving DecidableEq, Repr

def LoadCalls.succeed : LoadCalls := ⟨true, true, true, true, true⟩

/-- The allocations of a text, `file_storage_adapter.c:176-304`: none if it does not parse or
has no array of entries. -/
def CJson.load (json : CJson) (bytes : List UInt8) : List (Option Allocation) :=
  match (json.parse bytes).bind JsonRoot.entries with
  | none => []
  | some items => (items.take maxAllocCount).map CheckpointItem.load

/-- `file_adapter_load`, `file_storage_adapter.c:130-305`. A file that is missing or cannot be
opened is an empty list. -/
def fileAdapterLoad (json : CJson) (path : List Char) (calls : LoadCalls)
    (file : Option (List UInt8)) : Except Status (List (Option Allocation)) :=
  if path = [] then .error .fail
  else
    match file, calls.fopen with
    | some bytes, true =>
      if !calls.seek then .error .fail
      else if !calls.calloc then .error .noResource
      else if !bytes.isEmpty && !calls.fread then .error .fail
      else if !calls.fclose then .error .fail
      else .ok (json.load bytes)
    | _, _ => .ok []

/-! ### The file after a cut -/

section

variable (json : CJson) (path : List Char) (items : List CheckpointItem)

theorem foldl_mkdir (dirs : List (List Char)) (file : Option (List UInt8)) :
    (dirs.map mkdir).foldl apply file = file := by
  induction dirs with
  | nil => rfl
  | cons d dirs ih => exact ih

theorem foldl_write (bytes written : List UInt8) :
    (bytes.map write).foldl apply (some written) = some (written ++ bytes) := by
  induction bytes generalizing written with
  | nil => rw [append_nil]; rfl
  | cons b bytes ih =>
    rw [map_cons, foldl_cons]
    calc (bytes.map write).foldl apply (some (written ++ [b]))
        = some (written ++ [b] ++ bytes) := ih _
      _ = some (written ++ b :: bytes) := by rw [append_assoc, singleton_append]

/-- Up to the opening of the file nothing happens to it. -/
theorem cutSave_of_le {k : Nat} (h : k ≤ (ensuredDirs path).length)
    (file : Option (List UInt8)) : cutSave json path items k file = file := by
  unfold cutSave saveOps
  rw [take_append_of_le_length (by rw [length_map]; exact h), ← map_take]
  exact foldl_mkdir _ file

/-- From then on it holds the bytes written so far. -/
theorem cutSave_opened (n : Nat) (file : Option (List UInt8)) :
    cutSave json path items ((ensuredDirs path).length + 1 + n) file =
      some ((json.text items).take n) := by
  have hclose : ∀ m (bytes : Option (List UInt8)),
      ([fclose].take m).foldl apply bytes = bytes := by
    intro m bytes
    cases m with
    | zero => rfl
    | succ m => rw [take_succ_cons, take_nil]; rfl
  have hk : (ensuredDirs path).length + 1 + n =
      ((ensuredDirs path).map mkdir).length + (n + 1) := by
    rw [length_map]
    omega
  unfold cutSave saveOps
  rw [hk, take_length_add_append, foldl_append, foldl_mkdir, take_succ_cons,
    foldl_cons, take_append, ← map_take, foldl_append]
  have hwrite := foldl_write ((json.text items).take n) []
  rw [nil_append] at hwrite
  rw [apply, hwrite, hclose]

/-- What a save leaves: the old file, some of the bytes, or all of them if it reports success. -/
theorem fileAdapterSave_cases (num : JsonNumber) (calls : SaveCalls) (entries : List Allocation)
    (file : Option (List UInt8)) :
    let result := fileAdapterSave json num path calls entries file
    let text := json.text (savedItems num calls.adds entries)
    (result.1 ≠ .success ∧ (result.2 = file ∨ ∃ n, result.2 = some (text.take n))) ∨
      (path ≠ [] ∧ result.2 = some text) := by
  unfold fileAdapterSave
  dsimp only
  by_cases hpath : path = []
  · rw [if_pos hpath]
    exact .inl ⟨nofun, .inl rfl⟩
  rw [if_neg hpath]
  split_ifs
  iterate 5 exact .inl ⟨nofun, .inl rfl⟩
  split
  · exact .inl ⟨nofun, .inr ⟨_, rfl⟩⟩
  · exact .inl ⟨nofun, .inr ⟨_, rfl⟩⟩
  · exact .inr ⟨hpath, rfl⟩

theorem CJson.load_text_take (l : SavedEntries) (n : Nat) : json.load ((json.text l.items).take n) =
      if n < (json.print l.items).length then [] else l.allocs := by
  unfold CJson.load CJson.text
  rw [json.parse_take]
  by_cases hn : n < (json.print l.items).length
  · rw [if_pos hn, if_pos hn]
    rfl
  · rw [if_neg hn, if_neg hn]
    change (l.items.take maxAllocCount).map CheckpointItem.load = _
    rw [take_of_length_le l.length_le]
    rfl

theorem CJson.load_text (l : SavedEntries) : json.load (json.text l.items) = l.allocs := by
  have h := json.load_text_take l (json.text l.items).length
  rw [take_length] at h
  rw [h, if_neg]
  rw [CJson.text, length_append]
  omega

end

/-! ### Loading after an interrupted save -/

/-- What the next load returns when a save of `new` over a checkpoint that holds `old` is cut off
after `k` operations. -/
def loadAfterCut (json : CJson) (path : List Char) (old new : SavedEntries) (k : Nat)
    (calls : LoadCalls) : Except Status (List (Option Allocation)) :=
  fileAdapterLoad json path calls
    (cutSave json path new.items k (some (json.text old.items)))

/-- The load returns one of the two lists, or an error. -/
def Recovers (json : CJson) (path : List Char) (old new : SavedEntries) (k : Nat)
    (calls : LoadCalls) : Prop :=
  match loadAfterCut json path old new k calls with
  | .error _ => True
  | .ok allocs => allocs = old.allocs ∨ allocs = new.allocs

/-- The load fails: it has no path, or a call on the opened file fails. A file that is still
empty is not read. -/
def LoadFails (path : List Char) (k : Nat) (calls : LoadCalls) : Prop :=
  path = [] ∨ calls.fopen = true ∧ (calls.seek = false ∨ calls.calloc = false ∨
    calls.fclose = false ∨ calls.fread = false ∧ k ≠ (ensuredDirs path).length + 1)

/-- The file can be opened and is whole: it has not been opened for writing yet, or the new text
has been written up to its newline at least. -/
def Whole (json : CJson) (path : List Char) (new : SavedEntries) (k : Nat)
    (calls : LoadCalls) : Prop :=
  calls.fopen = true ∧ (k ≤ (ensuredDirs path).length ∨
    (ensuredDirs path).length + 1 + (json.print new.items).length ≤ k)

section

variable (json : CJson) {path : List Char} {k : Nat} {calls : LoadCalls}

theorem CJson.text_ne_nil (items : List CheckpointItem) : json.text items ≠ [] := by
  rw [CJson.text]
  exact append_ne_nil_of_right_ne_nil _ (cons_ne_nil _ _)

/-- The file after a cut: whether it is empty, and what it is loaded as. -/
theorem cutSave_spec (json : CJson) (path : List Char) (old new : SavedEntries) (k : Nat) :
    ∃ bytes, cutSave json path new.items k (some (json.text old.items)) = some bytes ∧
      (bytes = [] ↔ k = (ensuredDirs path).length + 1) ∧
      json.load bytes =
        if k ≤ (ensuredDirs path).length then old.allocs
        else if k < (ensuredDirs path).length + 1 + (json.print new.items).length then []
        else new.allocs := by
  by_cases hk : k ≤ (ensuredDirs path).length
  · refine ⟨_, cutSave_of_le json path new.items hk _, ?_, ?_⟩
    · refine ⟨fun h => absurd h (json.text_ne_nil _), ?_⟩
      omega
    · rw [if_pos hk, CJson.load_text]
  · obtain ⟨n, rfl⟩ : ∃ n, k = (ensuredDirs path).length + 1 + n :=
      ⟨k - ((ensuredDirs path).length + 1), by omega⟩
    refine ⟨_, cutSave_opened json path new.items n _, ?_, ?_⟩
    · rw [take_eq_nil_iff, or_iff_left (json.text_ne_nil _)]
      omega
    · rw [if_neg hk, CJson.load_text_take]
      congr 1
      apply propext
      omega

/-- A load that fails returns an error, and any other reads the file it can open. -/
theorem loadAfterCut_error (old new : SavedEntries) (h : LoadFails path k calls) :
    ∃ e, loadAfterCut json path old new k calls = .error e := by
  obtain ⟨bytes, hcut, hempty, -⟩ := cutSave_spec json path old new k
  unfold loadAfterCut fileAdapterLoad
  rw [hcut]
  rcases h with hpath | ⟨hopen, h⟩
  · exact ⟨_, if_pos hpath⟩
  · rw [hopen]
    dsimp only
    split_ifs with h1 h2 h3 h4 h5
    iterate 5 exact ⟨_, rfl⟩
    -- none of the calls has failed
    rcases h with h | h | h | ⟨h, hk⟩
    · rw [h] at h2; exact absurd rfl h2
    · rw [h] at h3; exact absurd rfl h3
    · rw [h] at h5; exact absurd rfl h5
    · rw [h] at h4
      cases bytes with
      | nil => exact absurd (hempty.mp rfl) hk
      | cons b bytes => exact absurd rfl h4

/-- What is loaded after a cut, unless the load itself fails. -/
theorem loadAfterCut_ok (old new : SavedEntries) (h : ¬ LoadFails path k calls) :
    loadAfterCut json path old new k calls = .ok (
      if calls.fopen = false then []
      else if k ≤ (ensuredDirs path).length then old.allocs
      else if k < (ensuredDirs path).length + 1 + (json.print new.items).length then []
      else new.allocs) := by
  obtain ⟨bytes, hcut, hempty, hload⟩ := cutSave_spec json path old new k
  unfold loadAfterCut fileAdapterLoad
  unfold LoadFails at h
  rw [hcut, ← hload]
  rw [not_or] at h
  obtain ⟨hpath, h⟩ := h
  rw [if_neg hpath]
  cases hopen : calls.fopen with
  | false => rfl
  | true =>
    simp only [hopen, true_and, not_or, Bool.not_eq_false] at h
    obtain ⟨hseek, hcalloc, hclose, hread⟩ := h
    have hread' : (!bytes.isEmpty && !calls.fread) = false := by
      cases hr : calls.fread with
      | true => rw [Bool.not_true, Bool.and_false]
      | false =>
        have hk : bytes = [] := hempty.mpr (by
          by_contra hne
          exact hread ⟨hr, hne⟩)
        rw [hk]
        rfl
    simp only [hseek, hcalloc, hclose, hread', Bool.not_true, Bool.false_eq_true, if_false,
      Bool.true_eq_false]

theorem SavedEntries.nil_eq_allocs_iff (l : SavedEntries) : [] = l.allocs ↔ l.items = [] :=
  eq_comm.trans map_eq_nil_iff

/-- After an interrupted save the next load returns the old list, the new one or an error exactly
when it fails, one of the lists is empty, or it opens a file that is still whole. -/
theorem recovers_iff (json : CJson) (path : List Char) (old new : SavedEntries) (k : Nat)
    (calls : LoadCalls) :
    Recovers json path old new k calls ↔ LoadFails path k calls ∨ old.items = [] ∨ new.items = [] ∨
        Whole json path new k calls := by
  by_cases hfails : LoadFails path k calls
  · obtain ⟨e, he⟩ := loadAfterCut_error json old new hfails
    unfold Recovers
    rw [he]
    exact ⟨fun _ => .inl hfails, fun _ => trivial⟩
  · unfold Recovers Whole
    rw [loadAfterCut_ok json old new hfails, or_iff_right hfails]
    dsimp only
    have hnil : ([] = old.allocs ∨ [] = new.allocs) ↔ old.items = [] ∨ new.items = [] := by
      rw [old.nil_eq_allocs_iff, new.nil_eq_allocs_iff]
    rw [← or_assoc]
    split_ifs with hopen hk hn
    · rw [hnil, hopen]
      simp
    · exact ⟨fun _ => .inr ⟨Bool.not_eq_false _ ▸ hopen, .inl hk⟩, fun _ => .inl rfl⟩
    · rw [hnil]
      refine (or_iff_left ?_).symm
      rintro ⟨-, h⟩
      omega
    · exact ⟨fun _ => .inr ⟨Bool.not_eq_false _ ▸ hopen, .inr (by omega)⟩, fun _ => .inr rfl⟩

end

/-! ### A checkpoint that is forgotten -/

instance stringEncodable : Encodable String :=
  .ofLeftInverse (fun s => s.toList.map Char.toNat) (fun l => .ofList (l.map Char.ofNat)) fun s => by
    simp [Function.comp_def, Char.ofNat_toNat]

instance int32Encodable : Encodable Int32 :=
  .ofLeftInverse Int32.toInt .ofInt Int32.ofInt_toInt

deriving instance Encodable for CheckpointItem

def zeros (bytes : List UInt8) : Nat := (bytes.takeWhile (· = 0)).length

theorem zeros_replicate (m : Nat) : zeros (replicate m 0) = m := by
  rw [zeros, takeWhile_replicate, if_pos (by decide), length_replicate]

theorem zeros_replicate_one (m : Nat) (rest : List UInt8) :
    zeros (replicate m 0 ++ 1 :: rest) = m := by
  have hall : ∀ b ∈ replicate m (0 : UInt8), decide (b = 0) = true := by
    intro b hb
    rw [eq_of_mem_replicate hb]
    rfl
  rw [zeros, takeWhile_append_of_pos hall, takeWhile_cons_of_neg (by decide),
    append_nil, length_replicate]

/-- A library that prints the number of a list in unary: as many zeros and a one. -/
def unaryJson : CJson where
  print items := replicate (encode items) 0 ++ [1]
  parse bytes :=
    let rest := bytes.drop (zeros bytes)
    if rest = [1] ∨ rest = [1, newline] then
      (decode (zeros bytes)).map JsonRoot.array
    else none
  print_ne_nil _ := append_ne_nil_of_right_ne_nil _ (cons_ne_nil _ _)
  parse_take items n := by
    rw [length_append, length_replicate, length_singleton, append_assoc,
      singleton_append, take_append, take_replicate, length_replicate]
    by_cases hn : n < encode items + 1
    · -- only zeros are left
      have hsub : n - encode items = 0 := by omega
      rw [if_pos hn, hsub, take_zero, append_nil]
      dsimp only
      rw [zeros_replicate, if_neg]
      rw [drop_of_length_le (by rw [length_replicate])]
      decide
    · have hmin : min n (encode items) = encode items := by omega
      obtain ⟨j, hj⟩ : ∃ j, n - encode items = j + 1 :=
        ⟨n - encode items - 1, by omega⟩
      have hrest : ∀ bytes : List UInt8,
          (replicate (encode items) 0 ++ bytes).drop (encode items) =
            bytes := by
        intro bytes
        exact drop_left' (length_replicate ..)
      rw [if_neg hn, hmin, hj, take_succ_cons]
      dsimp only
      rw [zeros_replicate_one, hrest, encodek, if_pos]
      · rfl
      · cases j with
        | zero => exact .inl rfl
        | succ j => exact .inr (by rw [take_succ_cons, take_nil])

def dieVnpu : Allocation :=
  { podUid := "pod", containerName := "main", phyId := 0, vnpuId := 0, dieId := "die0"
    shmId := "die0", aicoreQuota := 50, hbmQuota := 1024, hbmLimit := 2048
    schedPolicy := .elastic, swapPriority := .medium, vnpuPriority := .normal }

open SavedNode (exactNumber)

def oneVnpu : SavedEntries :=
  ⟨[dieVnpu.fullItem exactNumber], by decide⟩

def SaveCalls.succeed : SaveCalls := ⟨true, true, fun _ _ => true, true, true, true, none, none⟩

/-- The manager dies right after it has opened the checkpoint for writing: the next one starts
with an empty registry. -/
theorem recovers_forgets_vnpu :
    ¬ ∀ (json : CJson) (path : List Char) (old new : SavedEntries) (k : Nat) (calls : LoadCalls),
      Recovers json path old new k calls := by
  intro h
  have hrec := h unaryJson "checkpoint.json".toList oneVnpu oneVnpu 1 .succeed
  have hfails : ¬ LoadFails "checkpoint.json".toList 1 .succeed := by
    unfold LoadFails
    decide
  have hlt : (1 : Nat) < (ensuredDirs "checkpoint.json".toList).length + 1 +
      (unaryJson.print oneVnpu.items).length := by
    have hpos := length_pos_of_ne_nil (unaryJson.print_ne_nil oneVnpu.items)
    omega
  unfold Recovers at hrec
  rw [loadAfterCut_ok unaryJson _ _ hfails, if_neg (by decide), if_neg (by decide),
    if_pos hlt] at hrec
  rcases hrec with hnil | hnil <;> exact absurd hnil (by decide)

end UbsVirt.Enpu
