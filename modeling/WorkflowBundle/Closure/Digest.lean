import WorkflowBundle.Blake3
import WorkflowBundle.Closure
import WorkflowBundle.Text.Utf8

/-! Closures that are equal have equal digests, and others hardly ever. -/
namespace WorkflowBundle

/-- The bytes that stand for a closure: its JSON without blanks. -/
def Closure.canonicalBytes (c : Closure) : List UInt8 := Utf8.encode c.toJson.compact

def Closure.digest (c : Closure) : String := Blake3.hex c.canonicalBytes

end WorkflowBundle
