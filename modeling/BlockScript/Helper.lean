/-! # Helper functions

The functions that a script may need beside what the blocks say, as templates: a line each, two
spaces for a unit of indentation, and the placeholder where the function's name goes. -/

namespace BlockScript

/-- The helper functions. -/
inductive Helper where
  | isPrime | sum | least | greatest | mean | median | modes | standardDeviation
  | randomElement | randomInteger
  | letterFromEnd | randomLetter | substring | titleCase | countMatches
  | randomItem | removeRandomItem | sublist | sortList
  | randomColour | colourFromParts | blendColours
deriving DecidableEq, Repr

namespace Helper

def all : List Helper :=
  [.isPrime, .sum, .least, .greatest, .mean, .median, .modes, .standardDeviation,
    .randomElement, .randomInteger, .letterFromEnd, .randomLetter, .substring, .titleCase,
    .countMatches, .randomItem, .removeRandomItem, .sublist, .sortList, .randomColour,
    .colourFromParts, .blendColours]

/-- The key of the definition, and the name that the function gets if it is free. -/
def key : Helper → String
  | .isPrime => "math_isPrime"
  | .sum => "math_sum"
  | .least => "math_min"
  | .greatest => "math_max"
  | .mean => "math_mean"
  | .median => "math_median"
  | .modes => "math_modes"
  | .standardDeviation => "math_standard_deviation"
  | .randomElement => "math_random_item"
  | .randomInteger => "math_random_int"
  | .letterFromEnd => "text_get_from_end"
  | .randomLetter => "text_random_letter"
  | .substring => "text_get_substring"
  | .titleCase => "text_toTitleCase"
  | .countMatches => "text_count"
  | .randomItem => "lists_get_random_item"
  | .removeRandomItem => "lists_remove_random_item"
  | .sublist => "lists_get_sublist"
  | .sortList => "lists_sort"
  | .randomColour => "colour_random"
  | .colourFromParts => "colour_rgb"
  | .blendColours => "colour_blend"

/-- The lines of the function. -/
def template : Helper → List String
  | .isPrime =>
      ["bool \x7bfn\x7d(n) \x7b",
        "  // https://en.wikipedia.org/wiki/Primality_test#Naive_methods",
        "  if (n == 2 || n == 3) \x7b",
        "    return true;",
        "  \x7d",
        "  // False if n is null, negative, is 1, or not whole.",
        "  // And false if n is divisible by 2 or 3.",
        "  if (n == null || n <= 1 || n % 1 != 0 || n % 2 == 0 || n % 3 == 0) \x7b",
        "    return false;",
        "  \x7d",
        "  // Check all the numbers of form 6k +/- 1, up to sqrt(n).",
        "  for (var x = 6; x <= Math.sqrt(n) + 1; x += 6) \x7b",
        "    if (n % (x - 1) == 0 || n % (x + 1) == 0) \x7b",
        "      return false;",
        "    \x7d",
        "  \x7d",
        "  return true;",
        "\x7d"]
  | .sum =>
      ["num \x7bfn\x7d(List<num> myList) \x7b",
        "  num sumVal = 0;",
        "  myList.forEach((num entry) \x7bsumVal += entry;\x7d);",
        "  return sumVal;",
        "\x7d"]
  | .least =>
      ["num \x7bfn\x7d(List<num> myList) \x7b",
        "  if (myList.isEmpty) return null;",
        "  num minVal = myList[0];",
        "  myList.forEach((num entry) \x7bminVal = Math.min(minVal, entry);\x7d);",
        "  return minVal;",
        "\x7d"]
  | .greatest =>
      ["num \x7bfn\x7d(List<num> myList) \x7b",
        "  if (myList.isEmpty) return null;",
        "  num maxVal = myList[0];",
        "  myList.forEach((num entry) \x7bmaxVal = Math.max(maxVal, entry);\x7d);",
        "  return maxVal;",
        "\x7d"]
  | .mean =>
      ["num \x7bfn\x7d(List myList) \x7b",
        "  // First filter list for numbers only.",
        "  List localList = new List.from(myList);",
        "  localList.removeWhere((a) => a is! num);",
        "  if (localList.isEmpty) return null;",
        "  num sumVal = 0;",
        "  localList.forEach((var entry) \x7bsumVal += entry;\x7d);",
        "  return sumVal / localList.length;",
        "\x7d"]
  | .median =>
      ["num \x7bfn\x7d(List myList) \x7b",
        "  // First filter list for numbers only, then sort, then return middle value",
        "  // or the average of two middle values if list has an even number of elements.",
        "  List localList = new List.from(myList);",
        "  localList.removeWhere((a) => a is! num);",
        "  if (localList.isEmpty) return null;",
        "  localList.sort((a, b) => (a - b));",
        "  int index = localList.length ~/ 2;",
        "  if (localList.length % 2 == 1) \x7b",
        "    return localList[index];",
        "  \x7d else \x7b",
        "    return (localList[index - 1] + localList[index]) / 2;",
        "  \x7d",
        "\x7d"]
  | .modes =>
      ["List \x7bfn\x7d(List values) \x7b",
        "  List modes = [];",
        "  List counts = [];",
        "  int maxCount = 0;",
        "  for (int i = 0; i < values.length; i++) \x7b",
        "    var value = values[i];",
        "    bool found = false;",
        "    int thisCount;",
        "    for (int j = 0; j < counts.length; j++) \x7b",
        "      if (counts[j][0] == value) \x7b",
        "        thisCount = ++counts[j][1];",
        "        found = true;",
        "        break;",
        "      \x7d",
        "    \x7d",
        "    if (!found) \x7b",
        "      counts.add([value, 1]);",
        "      thisCount = 1;",
        "    \x7d",
        "    maxCount = Math.max(thisCount, maxCount);",
        "  \x7d",
        "  for (int j = 0; j < counts.length; j++) \x7b",
        "    if (counts[j][1] == maxCount) \x7b",
        "      modes.add(counts[j][0]);",
        "    \x7d",
        "  \x7d",
        "  return modes;",
        "\x7d"]
  | .standardDeviation =>
      ["num \x7bfn\x7d(List myList) \x7b",
        "  // First filter list for numbers only.",
        "  List numbers = new List.from(myList);",
        "  numbers.removeWhere((a) => a is! num);",
        "  if (numbers.isEmpty) return null;",
        "  num n = numbers.length;",
        "  num sum = 0;",
        "  numbers.forEach((x) => sum += x);",
        "  num mean = sum / n;",
        "  num sumSquare = 0;",
        "  numbers.forEach((x) => sumSquare += Math.pow(x - mean, 2));",
        "  return Math.sqrt(sumSquare / n);",
        "\x7d"]
  | .randomElement =>
      ["dynamic \x7bfn\x7d(List myList) \x7b",
        "  int x = new Math.Random().nextInt(myList.length);",
        "  return myList[x];",
        "\x7d"]
  | .randomInteger =>
      ["int \x7bfn\x7d(num a, num b) \x7b",
        "  if (a > b) \x7b",
        "    // Swap a and b to ensure a is smaller.",
        "    num c = a;",
        "    a = b;",
        "    b = c;",
        "  \x7d",
        "  return new Math.Random().nextInt(b - a + 1) + a;",
        "\x7d"]
  | .letterFromEnd =>
      ["String \x7bfn\x7d(String text, num x) \x7b",
        "  return text[text.length - x];",
        "\x7d"]
  | .randomLetter =>
      ["String \x7bfn\x7d(String text) \x7b",
        "  int x = new Math.Random().nextInt(text.length);",
        "  return text[x];",
        "\x7d"]
  | .substring =>
      ["String \x7bfn\x7d(String text, String where1, num at1, String where2, num at2) \x7b",
        "  int getAt(String where, num at) \x7b",
        "    if (where == 'FROM_END') \x7b",
        "      at = text.length - 1 - at;",
        "    \x7d else if (where == 'FIRST') \x7b",
        "      at = 0;",
        "    \x7d else if (where == 'LAST') \x7b",
        "      at = text.length - 1;",
        "    \x7d else if (where != 'FROM_START') \x7b",
        "      throw 'Unhandled option (text_getSubstring).';",
        "    \x7d",
        "    return at;",
        "  \x7d",
        "  at1 = getAt(where1, at1);",
        "  at2 = getAt(where2, at2) + 1;",
        "  return text.substring(at1, at2);",
        "\x7d"]
  | .titleCase =>
      ["String \x7bfn\x7d(String str) \x7b",
        "  RegExp exp = new RegExp(r'\\b');",
        "  List<String> list = str.split(exp);",
        "  final title = new StringBuffer();",
        "  for (String part in list) \x7b",
        "    if (part.length > 0) \x7b",
        "      title.write(part[0].toUpperCase());",
        "      if (part.length > 0) \x7b",
        "        title.write(part.substring(1).toLowerCase());",
        "      \x7d",
        "    \x7d",
        "  \x7d",
        "  return title.toString();",
        "\x7d"]
  | .countMatches =>
      ["int \x7bfn\x7d(String haystack, String needle) \x7b",
        "  if (needle.length == 0) \x7b",
        "    return haystack.length + 1;",
        "  \x7d",
        "  int index = 0;",
        "  int count = 0;",
        "  while (index != -1) \x7b",
        "    index = haystack.indexOf(needle, index);",
        "    if (index != -1) \x7b",
        "      count++;",
        "      index += needle.length;",
        "    \x7d",
        "  \x7d",
        "  return count;",
        "\x7d"]
  | .randomItem =>
      ["dynamic \x7bfn\x7d(List my_list) \x7b",
        "  int x = new Math.Random().nextInt(my_list.length);",
        "  return my_list[x];",
        "\x7d"]
  | .removeRandomItem =>
      ["dynamic \x7bfn\x7d(List my_list) \x7b",
        "  int x = new Math.Random().nextInt(my_list.length);",
        "  return my_list.removeAt(x);",
        "\x7d"]
  | .sublist =>
      ["List \x7bfn\x7d(List list, String where1, num at1, String where2, num at2) \x7b",
        "  int getAt(String where, num at) \x7b",
        "    if (where == 'FROM_END') \x7b",
        "      at = list.length - 1 - at;",
        "    \x7d else if (where == 'FIRST') \x7b",
        "      at = 0;",
        "    \x7d else if (where == 'LAST') \x7b",
        "      at = list.length - 1;",
        "    \x7d else if (where != 'FROM_START') \x7b",
        "      throw 'Unhandled option (lists_getSublist).';",
        "    \x7d",
        "    return at;",
        "  \x7d",
        "  at1 = getAt(where1, at1);",
        "  at2 = getAt(where2, at2) + 1;",
        "  return list.sublist(at1, at2);",
        "\x7d"]
  | .sortList =>
      ["List \x7bfn\x7d(List list, String type, int direction) \x7b",
        "  var compareFuncs = \x7b",
        "    \"NUMERIC\": (a, b) => (direction * a.compareTo(b)).toInt(),",
        "    \"TEXT\": (a, b) => direction * a.toString().compareTo(b.toString()),",
        "    \"IGNORE_CASE\": (a, b) => direction *",
        "        a.toString().toLowerCase().compareTo(b.toString().toLowerCase())",
        "  \x7d;",
        "  list = new List.from(list);",
        "  var compare = compareFuncs[type];",
        "  list.sort(compare);",
        "  return list;",
        "\x7d"]
  | .randomColour =>
      ["String \x7bfn\x7d() \x7b",
        "  String hex = '0123456789abcdef';",
        "  var rnd = new Math.Random();",
        "  return '#$\x7bhex[rnd.nextInt(16)]\x7d$\x7bhex[rnd.nextInt(16)]\x7d'",
        "      '$\x7bhex[rnd.nextInt(16)]\x7d$\x7bhex[rnd.nextInt(16)]\x7d'",
        "      '$\x7bhex[rnd.nextInt(16)]\x7d$\x7bhex[rnd.nextInt(16)]\x7d';",
        "\x7d"]
  | .colourFromParts =>
      ["String \x7bfn\x7d(num r, num g, num b) \x7b",
        "  num rn = (Math.max(Math.min(r, 100), 0) * 2.55).round();",
        "  String rs = rn.toInt().toRadixString(16);",
        "  rs = '0$rs';",
        "  rs = rs.substring(rs.length - 2);",
        "  num gn = (Math.max(Math.min(g, 100), 0) * 2.55).round();",
        "  String gs = gn.toInt().toRadixString(16);",
        "  gs = '0$gs';",
        "  gs = gs.substring(gs.length - 2);",
        "  num bn = (Math.max(Math.min(b, 100), 0) * 2.55).round();",
        "  String bs = bn.toInt().toRadixString(16);",
        "  bs = '0$bs';",
        "  bs = bs.substring(bs.length - 2);",
        "  return '#$rs$gs$bs';",
        "\x7d"]
  | .blendColours =>
      ["String \x7bfn\x7d(String c1, String c2, num ratio) \x7b",
        "  ratio = Math.max(Math.min(ratio, 1), 0);",
        "  int r1 = int.parse('0x$\x7bc1.substring(1, 3)\x7d');",
        "  int g1 = int.parse('0x$\x7bc1.substring(3, 5)\x7d');",
        "  int b1 = int.parse('0x$\x7bc1.substring(5, 7)\x7d');",
        "  int r2 = int.parse('0x$\x7bc2.substring(1, 3)\x7d');",
        "  int g2 = int.parse('0x$\x7bc2.substring(3, 5)\x7d');",
        "  int b2 = int.parse('0x$\x7bc2.substring(5, 7)\x7d');",
        "  num rn = (r1 * (1 - ratio) + r2 * ratio).round();",
        "  String rs = rn.toInt().toRadixString(16);",
        "  num gn = (g1 * (1 - ratio) + g2 * ratio).round();",
        "  String gs = gn.toInt().toRadixString(16);",
        "  num bn = (b1 * (1 - ratio) + b2 * ratio).round();",
        "  String bs = bn.toInt().toRadixString(16);",
        "  rs = '0$rs';",
        "  rs = rs.substring(rs.length - 2);",
        "  gs = '0$gs';",
        "  gs = gs.substring(gs.length - 2);",
        "  bs = '0$bs';",
        "  bs = bs.substring(bs.length - 2);",
        "  return '#$rs$gs$bs';",
        "\x7d"]

theorem mem_all (h : Helper) : h ∈ all := by cases h <;> decide

theorem key_injective : Function.Injective key := by
  intro a b h
  have distinct : ∀ a ∈ all, ∀ b ∈ all, a.key = b.key → a = b := by decide +kernel
  exact distinct a (mem_all a) b (mem_all b) h

end Helper

end BlockScript
