import DistributedCache.Js.Value

/-!
# Argument checks of the cache store

`packages/cache-core/src/limits.js` and `errors.js`: the errors the store throws, the limits on keys
and values, and the three assertions every call starts with. The arguments of a call are arbitrary
JavaScript values (`JsValue`); an assertion that returns gives back the value it has checked.
-/

namespace DistributedCache

/-- A JavaScript value as the store's checks see it. An object is given by the two properties that
the store reads from an options object; functions, symbols and big integers are `other`. -/
inductive JsValue
  | undefined
  | null
  | boolean (b : Bool)
  | number (x : JsNumber)
  | string (s : JsString)
  | array
  | object (ex maxExamined : JsValue)
  | other
  deriving DecidableEq, Repr

/-- The `code` of a `CacheError`. -/
inductive CacheErrorCode
  | invalidKeyType
  | emptyKey
  | keyTooLarge
  | invalidValueType
  | valueTooLarge
  | invalidEx
  | invalidOptions
  | entryTooLarge
  deriving DecidableEq, Repr

/-- `CacheError`. -/
structure CacheError where
  code : CacheErrorCode
  message : JsString
  deriving DecidableEq, Repr

/-- Max key length in UTF-8 bytes. -/
def MAX_KEY_BYTES : ℕ := 256

/-- Max value size in UTF-8 bytes. -/
def MAX_VALUE_BYTES : ℕ := 1048576

/-- `assertValidKey`. -/
def assertValidKey : JsValue → Except CacheError JsString
  | .string key =>
      if key = [] then .error ⟨.emptyKey, js "key must not be empty"⟩
      else if byteLength key > MAX_KEY_BYTES then
        .error ⟨.keyTooLarge, js "key exceeds " ++ decimal MAX_KEY_BYTES ++
          js " UTF-8 bytes (got " ++ decimal (byteLength key) ++ js ")"⟩
      else .ok key
  | _ => .error ⟨.invalidKeyType, js "key must be a string"⟩

/-- `assertValidValue`. -/
def assertValidValue : JsValue → Except CacheError JsString
  | .string value =>
      if byteLength value > MAX_VALUE_BYTES then
        .error ⟨.valueTooLarge, js "value exceeds " ++ decimal MAX_VALUE_BYTES ++
          js " UTF-8 bytes (got " ++ decimal (byteLength value) ++ js ")"⟩
      else .ok value
  | _ => .error ⟨.invalidValueType, js "value must be a string"⟩

/-- `assertValidEx`. -/
def assertValidEx : JsValue → Except CacheError ℤ
  | .number x =>
      if !x.isFinite then .error ⟨.invalidEx, js "EX must be a finite number of seconds"⟩
      else match x with
        | .int n =>
            if n ≤ 0 then .error ⟨.invalidEx, js "EX must be a positive integer (seconds)"⟩
            else .ok n
        | _ => .error ⟨.invalidEx, js "EX must be a positive integer (seconds)"⟩
  | _ => .error ⟨.invalidEx, js "EX must be a finite number of seconds"⟩

/-- The check of an `options` argument (default `{}`): its `ex` and `maxExamined` properties. -/
def plainObject : JsValue → Except CacheError (JsValue × JsValue)
  | .undefined => .ok (.undefined, .undefined)
  | .object ex maxExamined => .ok (ex, maxExamined)
  | _ => .error ⟨.invalidOptions, js "options must be a plain object"⟩

/-! ### What the checks accept -/

/-- A key the store accepts. -/
def ValidKey (key : JsString) : Prop := key ≠ [] ∧ byteLength key ≤ MAX_KEY_BYTES

/-- A value the store accepts. -/
def ValidValue (value : JsString) : Prop := byteLength value ≤ MAX_VALUE_BYTES

instance (key : JsString) : Decidable (ValidKey key) := inferInstanceAs (Decidable (_ ∧ _))
instance (value : JsString) : Decidable (ValidValue value) := inferInstanceAs (Decidable (_ ≤ _))

theorem assertValidKey_eq_ok_iff {v : JsValue} {key : JsString} :
    assertValidKey v = .ok key ↔ v = .string key ∧ ValidKey key := by
  cases v <;> simp only [assertValidKey, reduceCtorEq, false_and, JsValue.string.injEq]
  split_ifs with h1 h2
  · simp only [false_iff]
    rintro ⟨rfl, h⟩
    exact h.1 h1
  · simp only [false_iff]
    rintro ⟨rfl, h⟩
    exact absurd h.2 (by omega)
  · simp only [Except.ok.injEq]
    exact ⟨fun h => ⟨h, h ▸ ⟨h1, by omega⟩⟩, fun h => h.1⟩

theorem assertValidValue_eq_ok_iff {v : JsValue} {value : JsString} :
    assertValidValue v = .ok value ↔ v = .string value ∧ ValidValue value := by
  cases v <;> simp only [assertValidValue, reduceCtorEq, false_and, JsValue.string.injEq]
  split_ifs with h
  · simp only [false_iff]
    rintro ⟨rfl, hv⟩
    exact absurd hv (by simp only [ValidValue]; omega)
  · simp only [Except.ok.injEq]
    exact ⟨fun e => ⟨e, e ▸ by simp only [ValidValue]; omega⟩, fun e => e.1⟩

theorem assertValidEx_eq_ok_iff {v : JsValue} {n : ℤ} :
    assertValidEx v = .ok n ↔ v = .number (.int n) ∧ 0 < n := by
  cases v with
  | number x =>
    cases x with
    | int m =>
      simp only [assertValidEx, JsNumber.isFinite, Bool.not_true, Bool.false_eq_true, if_false,
        JsValue.number.injEq, JsNumber.int.injEq]
      split_ifs with h
      · simp only [false_iff]
        omega
      · simp only [Except.ok.injEq]
        omega
    | _ => simp [assertValidEx, JsNumber.isFinite]
  | _ => simp [assertValidEx]

theorem plainObject_eq_ok_iff {v : JsValue} {ex maxExamined : JsValue} :
    plainObject v = .ok (ex, maxExamined) ↔
      v = .object ex maxExamined ∨ (v = .undefined ∧ ex = .undefined ∧ maxExamined = .undefined) := by
  cases v <;> simp [plainObject, eq_comm]

end DistributedCache
