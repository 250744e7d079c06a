import LetLang.Text.Catalogue.Member
/-!
# The members of numbers

Of numbers and of truth values, which are numbers too, in the order in which their table lists them.
-/
namespace LetLang.Catalogue

/-- The members of numbers. -/
def numberMembers : List Member := [
  .factory, .hook "__repr__", .hook "__hash__", .hook "__getattribute__", .hook "__lt__",
  .hook "__le__", .hook "__eq__", .hook "__ne__", .hook "__gt__", .hook "__ge__",
  .hook "__add__", .hook "__radd__", .hook "__sub__", .hook "__rsub__", .hook "__mul__",
  .hook "__rmul__", .hook "__mod__", .hook "__rmod__", .hook "__divmod__", .hook "__rdivmod__",
  .hook "__pow__", .hook "__rpow__", .hook "__neg__", .hook "__pos__", .hook "__abs__",
  .hook "__bool__", .hook "__invert__", .hook "__lshift__", .hook "__rlshift__",
  .hook "__rshift__", .hook "__rrshift__", .hook "__and__", .hook "__rand__", .hook "__xor__",
  .hook "__rxor__", .hook "__or__", .hook "__ror__", .hook "__int__", .hook "__float__",
  .hook "__floordiv__", .hook "__rfloordiv__", .hook "__truediv__", .hook "__rtruediv__",
  .hook "__index__",
  .method "conjugate" none ["Returns self, the complex conjugate of any int."],
  .method "bit_length" "($self, /)"
    ["Number of bits necessary to represent self in binary.",
     "",
     ">>> bin(37)",
     "'0b100101'",
     ">>> (37).bit_length()",
     "6"],
  .method "bit_count" "($self, /)"
    ["Number of ones in the binary representation of the absolute value of self.",
     "",
     "Also known as the population count.",
     "",
     ">>> bin(13)",
     "'0b1101'",
     ">>> (13).bit_count()",
     "3"],
  .method "to_bytes" "($self, /, length=1, byteorder='big', *, signed=False)"
    ["Return an array of bytes representing an integer.",
     "",
     "  length",
     "    Length of bytes object to use.  An OverflowError is raised if the",
     "    integer is not representable with the given number of bytes.  Default",
     "    is length 1.",
     "  byteorder",
     "    The byte order used to represent the integer.  If byteorder is 'big',",
     "    the most significant byte is at the beginning of the byte array.  If",
     "    byteorder is 'little', the most significant byte is at the end of the",
     "    byte array.  To request the native byte order of the host system, use",
     "    `sys.byteorder' as the byte order value.  Default is to use 'big'.",
     "  signed",
     "    Determines whether two's complement is used to represent the integer.",
     "    If signed is False and a negative integer is given, an OverflowError",
     "    is raised."],
  .classMethod "from_bytes" "($type, /, bytes, byteorder='big', *, signed=False)"
    ["Return the integer represented by the given array of bytes.",
     "",
     "  bytes",
     "    Holds the array of bytes to convert.  The argument must either",
     "    support the buffer protocol or be an iterable object producing bytes.",
     "    Bytes and bytearray are examples of built-in objects that support the",
     "    buffer protocol.",
     "  byteorder",
     "    The byte order used to represent the integer.  If byteorder is 'big',",
     "    the most significant byte is at the beginning of the byte array.  If",
     "    byteorder is 'little', the most significant byte is at the end of the",
     "    byte array.  To request the native byte order of the host system, use",
     "    `sys.byteorder' as the byte order value.  Default is to use 'big'.",
     "  signed",
     "    Indicates whether two's complement is used to represent the integer."],
  .method "as_integer_ratio" "($self, /)"
    ["Return integer ratio.",
     "",
     "Return a pair of integers, whose ratio is exactly equal to the original int",
     "and with a positive denominator.",
     "",
     ">>> (10).as_integer_ratio()",
     "(10, 1)",
     ">>> (-10).as_integer_ratio()",
     "(-10, 1)",
     ">>> (0).as_integer_ratio()",
     "(0, 1)"],
  .method "__trunc__" none ["Truncating an Integral returns itself."],
  .method "__floor__" none ["Flooring an Integral returns itself."],
  .method "__ceil__" none ["Ceiling of an Integral returns itself."],
  .method "__round__" "($self, ndigits=<unrepresentable>, /)"
    ["Rounding an Integral returns itself.",
     "",
     "Rounding with an ndigits argument also returns an integer."],
  .method "__getnewargs__" "($self, /)" [],
  .method "__format__" "($self, format_spec, /)" [],
  .method "__sizeof__" "($self, /)" ["Returns size in memory, in bytes."],
  .computed "real" ["the real part of a complex number"],
  .computed "imag" ["the imaginary part of a complex number"],
  .computed "numerator" ["the numerator of a rational number in lowest terms"],
  .computed "denominator"
    ["the denominator of a rational number in lowest terms"],
  .words "__doc__"
    ["int([x]) -> integer",
     "int(x, base=10) -> integer",
     "",
     "Convert a number or string to an integer, or return 0 if no arguments",
     "are given.  If x is a number, return x.__int__().  For floating point",
     "numbers, this truncates towards zero.",
     "",
     "If x is not a number or if base is given, then x must be a string,",
     "bytes, or bytearray instance representing an integer literal in the",
     "given base.  The literal can be preceded by '+' or '-' and be surrounded",
     "by whitespace.  The base defaults to 10.  Valid bases are 0 and 2-36.",
     "Base 0 means to interpret the base from the string as an integer literal.",
     ">>> int('0b100', base=0)",
     "4"]]

/-- The members that truth values have beside those of numbers. -/
def truthMembers : List Member := [
  .factory, .hook "__repr__", .hook "__and__", .hook "__rand__", .hook "__xor__",
  .hook "__rxor__", .hook "__or__", .hook "__ror__",
  .words "__doc__"
    ["bool(x) -> bool",
     "",
     "Returns True when the argument x is true, False otherwise.",
     "The builtins True and False are the only two instances of the class bool.",
     "The class bool is a subclass of the class int, and cannot be subclassed."]]

end LetLang.Catalogue
