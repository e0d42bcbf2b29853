/-
Module: GrammarKit.Unicode.Script
Purpose: The script of every character, and the scripts in which a character is used besides.
Main exports: scriptNames, ofScript?, ofScriptExtended?
-/
import GrammarKit.Unicode.CharSet

namespace GrammarKit.Unicode

/-- The names of each script in lower case and without underscores, the code of four letters first. -/
def scriptNames : List (List String) :=
  [["adlm", "adlam"], ["aghb", "caucasianalbanian"], ["ahom"], ["arab", "arabic"],
   ["armi", "imperialaramaic"], ["armn", "armenian"], ["avst", "avestan"], ["bali", "balinese"],
   ["bamu", "bamum"], ["bass", "bassavah"], ["batk", "batak"], ["beng", "bengali"],
   ["bhks", "bhaiksuki"], ["bopo", "bopomofo"], ["brah", "brahmi"], ["brai", "braille"],
   ["bugi", "buginese"], ["buhd", "buhid"], ["cakm", "chakma"], ["cans", "canadianaboriginal"],
   ["cari", "carian"], ["cham"], ["cher", "cherokee"], ["chrs", "chorasmian"],
   ["copt", "coptic", "qaac"], ["cpmn", "cyprominoan"], ["cprt", "cypriot"], ["cyrl", "cyrillic"],
   ["deva", "devanagari"], ["diak", "divesakuru"], ["dogr", "dogra"], ["dsrt", "deseret"],
   ["dupl", "duployan"], ["egyp", "egyptianhieroglyphs"], ["elba", "elbasan"], ["elym", "elymaic"],
   ["ethi", "ethiopic"], ["gara", "garay"], ["geor", "georgian"], ["glag", "glagolitic"],
   ["gong", "gunjalagondi"], ["gonm", "masaramgondi"], ["goth", "gothic"], ["gran", "grantha"],
   ["grek", "greek"], ["gujr", "gujarati"], ["gukh", "gurungkhema"], ["guru", "gurmukhi"],
   ["hang", "hangul"], ["hani", "han"], ["hano", "hanunoo"], ["hatr", "hatran"], ["hebr", "hebrew"],
   ["hira", "hiragana"], ["hluw", "anatolianhieroglyphs"], ["hmng", "pahawhhmong"],
   ["hmnp", "nyiakengpuachuehmong"], ["hung", "oldhungarian"], ["ital", "olditalic"],
   ["java", "javanese"], ["kali", "kayahli"], ["kana", "katakana"], ["kawi"],
   ["khar", "kharoshthi"], ["khmr", "khmer"], ["khoj", "khojki"], ["kits", "khitansmallscript"],
   ["knda", "kannada"], ["krai", "kiratrai"], ["kthi", "kaithi"], ["lana", "taitham"],
   ["laoo", "lao"], ["latn", "latin"], ["lepc", "lepcha"], ["limb", "limbu"], ["lina", "lineara"],
   ["linb", "linearb"], ["lisu"], ["lyci", "lycian"], ["lydi", "lydian"], ["mahj", "mahajani"],
   ["maka", "makasar"], ["mand", "mandaic"], ["mani", "manichaean"], ["marc", "marchen"],
   ["medf", "medefaidrin"], ["mend", "mendekikakui"], ["merc", "meroiticcursive"],
   ["mero", "meroitichieroglyphs"], ["mlym", "malayalam"], ["modi"], ["mong", "mongolian"],
   ["mroo", "mro"], ["mtei", "meeteimayek"], ["mult", "multani"], ["mymr", "myanmar"],
   ["nagm", "nagmundari"], ["nand", "nandinagari"], ["narb", "oldnortharabian"],
   ["nbat", "nabataean"], ["newa"], ["nkoo", "nko"], ["nshu", "nushu"], ["ogam", "ogham"],
   ["olck", "olchiki"], ["onao", "olonal"], ["orkh", "oldturkic"], ["orya", "oriya"],
   ["osge", "osage"], ["osma", "osmanya"], ["ougr", "olduyghur"], ["palm", "palmyrene"],
   ["pauc", "paucinhau"], ["perm", "oldpermic"], ["phag", "phagspa"],
   ["phli", "inscriptionalpahlavi"], ["phlp", "psalterpahlavi"], ["phnx", "phoenician"],
   ["plrd", "miao"], ["prti", "inscriptionalparthian"], ["rjng", "rejang"],
   ["rohg", "hanifirohingya"], ["runr", "runic"], ["samr", "samaritan"],
   ["sarb", "oldsoutharabian"], ["saur", "saurashtra"], ["sgnw", "signwriting"],
   ["shaw", "shavian"], ["shrd", "sharada"], ["sidd", "siddham"], ["sind", "khudawadi"],
   ["sinh", "sinhala"], ["sogd", "sogdian"], ["sogo", "oldsogdian"], ["sora", "sorasompeng"],
   ["soyo", "soyombo"], ["sund", "sundanese"], ["sunu", "sunuwar"], ["sylo", "sylotinagri"],
   ["syrc", "syriac"], ["tagb", "tagbanwa"], ["takr", "takri"], ["tale", "taile"],
   ["talu", "newtailue"], ["taml", "tamil"], ["tang", "tangut"], ["tavt", "taiviet"],
   ["telu", "telugu"], ["tfng", "tifinagh"], ["tglg", "tagalog"], ["thaa", "thaana"], ["thai"],
   ["tibt", "tibetan"], ["tirh", "tirhuta"], ["tnsa", "tangsa"], ["todr", "todhri"], ["toto"],
   ["tutg", "tulutigalari"], ["ugar", "ugaritic"], ["vaii", "vai"], ["vith", "vithkuqi"],
   ["wara", "warangciti"], ["wcho", "wancho"], ["xpeo", "oldpersian"], ["xsux", "cuneiform"],
   ["yezi", "yezidi"], ["yiii", "yi"], ["zanb", "zanabazarsquare"], ["zinh", "inherited", "qaai"],
   ["zyyy", "common"]]

/-- The scripts of all code points in order: the length of each run in decimal, followed by the code of its
script, where `zzzz` stands for none. -/
def packedScripts : List String :=
  ["65zyyy26latn6zyyy26latn47zyyy1latn15zyyy1latn5zyyy23latn1zyyy31latn1zyyy449latn39zyyy5latn5zyyy",
   "2bopo20zyyy112zinh4grek1zyyy3grek2zzzz4grek1zyyy1grek4zzzz1grek1zyyy1grek1zyyy3grek1zzzz1grek",
   "1zzzz20grek1zzzz63grek14copt16grek133cyrl2zinh169cyrl1zzzz38armn2zzzz50armn2zzzz3armn1zzzz",
   "55hebr8zzzz27hebr4zzzz6hebr11zzzz5arab1zyyy6arab1zyyy14arab1zyyy3arab1zyyy32arab1zyyy10arab",
   "11zinh26arab1zinh108arab1zyyy34arab14syrc1zzzz60syrc2zzzz3syrc48arab50thaa14zzzz59nkoo2zzzz",
   "3nkoo46samr2zzzz15samr1zzzz28mand2zzzz1mand1zzzz11syrc5zzzz31arab1zzzz2arab5zzzz75arab1zyyy",
   "29arab81deva4zinh15deva2zyyy26deva4beng1zzzz8beng2zzzz2beng2zzzz22beng1zzzz7beng1zzzz1beng3zzzz",
   "4beng2zzzz9beng2zzzz2beng2zzzz4beng8zzzz1beng4zzzz2beng1zzzz5beng2zzzz25beng2zzzz3guru1zzzz",
   "6guru4zzzz2guru2zzzz22guru1zzzz7guru1zzzz2guru1zzzz2guru1zzzz2guru2zzzz1guru1zzzz5guru4zzzz",
   "2guru2zzzz3guru3zzzz1guru7zzzz4guru1zzzz1guru7zzzz17guru10zzzz3gujr1zzzz9gujr1zzzz3gujr1zzzz",
   "22gujr1zzzz7gujr1zzzz2gujr1zzzz5gujr2zzzz10gujr1zzzz3gujr1zzzz3gujr2zzzz1gujr15zzzz4gujr2zzzz",
   "12gujr7zzzz7gujr1zzzz3orya1zzzz8orya2zzzz2orya2zzzz22orya1zzzz7orya1zzzz2orya1zzzz5orya2zzzz",
   "9orya2zzzz2orya2zzzz3orya7zzzz3orya4zzzz2orya1zzzz5orya2zzzz18orya10zzzz2taml1zzzz6taml3zzzz",
   "3taml1zzzz4taml3zzzz2taml1zzzz1taml1zzzz2taml3zzzz2taml3zzzz3taml3zzzz12taml4zzzz5taml3zzzz",
   "3taml1zzzz4taml2zzzz1taml6zzzz1taml14zzzz21taml5zzzz13telu1zzzz3telu1zzzz23telu1zzzz16telu2zzzz",
   "9telu1zzzz3telu1zzzz4telu7zzzz2telu1zzzz3telu2zzzz1telu2zzzz4telu2zzzz10telu7zzzz9telu13knda",
   "1zzzz3knda1zzzz23knda1zzzz10knda1zzzz5knda2zzzz9knda1zzzz3knda1zzzz4knda7zzzz2knda6zzzz2knda",
   "1zzzz4knda2zzzz10knda1zzzz3knda12zzzz13mlym1zzzz3mlym1zzzz51mlym1zzzz3mlym1zzzz6mlym4zzzz16mlym",
   "2zzzz26mlym1zzzz3sinh1zzzz18sinh3zzzz24sinh1zzzz9sinh1zzzz1sinh2zzzz7sinh3zzzz1sinh4zzzz6sinh",
   "1zzzz1sinh1zzzz8sinh6zzzz10sinh2zzzz3sinh12zzzz58thai4zzzz1zyyy28thai37zzzz2laoo1zzzz1laoo1zzzz",
   "5laoo1zzzz24laoo1zzzz1laoo1zzzz23laoo2zzzz5laoo1zzzz1laoo1zzzz7laoo1zzzz10laoo2zzzz4laoo32zzzz",
   "72tibt1zzzz36tibt4zzzz39tibt1zzzz36tibt1zzzz15tibt1zzzz7tibt4zyyy2tibt37zzzz160mymr38geor1zzzz",
   "1geor5zzzz1geor2zzzz43geor1zyyy4geor256hang73ethi1zzzz4ethi2zzzz7ethi1zzzz1ethi1zzzz4ethi2zzzz",
   "41ethi1zzzz4ethi2zzzz33ethi1zzzz4ethi2zzzz7ethi1zzzz1ethi1zzzz4ethi2zzzz15ethi1zzzz57ethi1zzzz",
   "4ethi2zzzz67ethi2zzzz32ethi3zzzz26ethi6zzzz86cher2zzzz6cher2zzzz640cans29ogam3zzzz75runr3zyyy",
   "11runr7zzzz22tglg9zzzz1tglg21hano2zyyy9zzzz20buhd12zzzz13tagb1zzzz3tagb1zzzz2tagb12zzzz94khmr",
   "2zzzz10khmr6zzzz10khmr6zzzz2mong2zyyy1mong1zyyy20mong6zzzz89mong7zzzz43mong5zzzz70cans10zzzz",
   "31limb1zzzz12limb4zzzz12limb4zzzz1limb3zzzz12limb30tale2zzzz5tale11zzzz44talu4zzzz26talu6zzzz",
   "11talu3zzzz2talu32khmr28bugi2zzzz2bugi63lana1zzzz29lana2zzzz11lana6zzzz10lana6zzzz14lana2zzzz",
   "31zinh49zzzz77bali1zzzz50bali64sund52batk8zzzz4batk56lepc3zzzz15lepc3zzzz3lepc48olck11cyrl5zzzz",
   "43geor2zzzz3geor8sund8zzzz3zinh1zyyy13zinh1zyyy7zinh4zyyy1zinh6zyyy1zinh3zyyy2zinh1zyyy5zzzz",
   "38latn5grek1cyrl49latn5grek4latn5grek13latn1cyrl70latn1grek64zinh256latn22grek2zzzz6grek2zzzz",
   "38grek2zzzz6grek2zzzz8grek1zzzz1grek1zzzz1grek1zzzz1grek1zzzz31grek2zzzz53grek1zzzz15grek1zzzz",
   "14grek2zzzz6grek1zzzz19grek2zzzz3grek1zzzz9grek1zzzz12zyyy2zinh87zyyy1zzzz11zyyy1latn2zzzz",
   "11zyyy1latn15zyyy1zzzz13latn3zzzz33zyyy15zzzz33zinh15zzzz38zyyy1grek3zyyy2latn6zyyy1latn27zyyy",
   "1latn17zyyy41latn3zyyy4zzzz666zyyy22zzzz11zyyy21zzzz928zyyy256brai628zyyy2zzzz32zyyy1zzzz",
   "105zyyy96glag32latn116copt5zzzz7copt38geor1zzzz1geor5zzzz1geor2zzzz56tfng7zzzz2tfng14zzzz1tfng",
   "23ethi9zzzz7ethi1zzzz7ethi1zzzz7ethi1zzzz7ethi1zzzz7ethi1zzzz7ethi1zzzz7ethi1zzzz7ethi1zzzz",
   "32cyrl94zyyy34zzzz26hani1zzzz89hani12zzzz214hani26zzzz21zyyy1hani1zyyy1hani25zyyy9hani4zinh",
   "2hang8zyyy4hani4zyyy1zzzz86hira2zzzz2zinh2zyyy3hira1zyyy90kana2zyyy3kana5zzzz43bopo1zzzz94hang",
   "1zzzz16zyyy32bopo38zyyy9zzzz1zyyy16kana31hang1zzzz64zyyy31hang81zyyy47kana1zyyy88kana168zyyy",
   "6592hani64zyyy20992hani1165yiii3zzzz55yiii9zzzz48lisu300vaii20zzzz96cyrl88bamu8zzzz34zyyy",
   "102latn3zyyy67latn2zzzz2latn1zzzz1latn1zzzz8latn21zzzz14latn45sylo3zzzz10zyyy6zzzz56phag8zzzz",
   "70saur8zzzz12saur6zzzz32deva46kali1zyyy1kali36rjng11zzzz1rjng29hang3zzzz78java1zzzz1zyyy10java",
   "4zzzz2java31mymr1zzzz55cham9zzzz14cham2zzzz10cham2zzzz4cham32mymr67tavt24zzzz5tavt23mtei10zzzz",
   "6ethi2zzzz6ethi2zzzz6ethi9zzzz7ethi1zzzz7ethi1zzzz43latn1zyyy9latn1grek4latn2zyyy4zzzz80cher",
   "46mtei2zzzz10mtei6zzzz11172hang12zzzz23hang4zzzz49hang8452zzzz366hani2zzzz106hani38zzzz7latn",
   "12zzzz5armn5zzzz26hebr1zzzz5hebr1zzzz1hebr1zzzz2hebr1zzzz2hebr1zzzz10hebr115arab16zzzz363arab",
   "2zyyy80arab2zzzz54arab7zzzz1arab32zzzz16arab16zinh10zyyy6zzzz14zinh2cyrl35zyyy1zzzz19zyyy1zzzz",
   "4zyyy4zzzz5arab1zzzz135arab2zzzz1zyyy1zzzz32zyyy26latn6zyyy26latn11zyyy10kana1zyyy45kana2zyyy",
   "31hang3zzzz6hang2zzzz6hang2zzzz6hang2zzzz3hang3zzzz7zyyy1zzzz7zyyy10zzzz5zyyy2zzzz12linb1zzzz",
   "26linb1zzzz19linb1zzzz2linb1zzzz15linb2zzzz14linb34zzzz123linb5zzzz3zyyy4zzzz45zyyy3zzzz9zyyy",
   "79grek1zzzz13zyyy3zzzz1grek47zzzz45zyyy1zinh130zzzz29lyci3zzzz49cari15zzzz1zinh27zyyy4zzzz",
   "36ital9zzzz3ital27goth5zzzz43perm5zzzz30ugar1zzzz1ugar36xpeo4zzzz14xpeo42zzzz80dsrt48shaw30osma",
   "2zzzz10osma6zzzz36osge4zzzz36osge4zzzz40elba8zzzz52aghb11zzzz1aghb11vith1zzzz15vith1zzzz7vith",
   "1zzzz2vith1zzzz11vith1zzzz15vith1zzzz7vith1zzzz2vith3zzzz52todr12zzzz311lina9zzzz22lina10zzzz",
   "8lina24zzzz6latn1zzzz42latn1zzzz9latn69zzzz6cprt2zzzz1cprt1zzzz44cprt1zzzz2cprt3zzzz1cprt2zzzz",
   "1cprt22armi1zzzz9armi32palm31nbat8zzzz9nbat48zzzz19hatr1zzzz2hatr5zzzz5hatr28phnx3zzzz1phnx",
   "26lydi5zzzz1lydi64zzzz32mero24merc4zzzz20merc2zzzz46merc4khar1zzzz2khar5zzzz8khar1zzzz3khar",
   "1zzzz29khar2zzzz3khar4zzzz10khar7zzzz9khar7zzzz32sarb32narb32zzzz39mani4zzzz12mani9zzzz54avst",
   "3zzzz7avst22prti2zzzz8prti19phli5zzzz8phli18phlp7zzzz4phlp12zzzz7phlp80zzzz73orkh55zzzz51hung",
   "13zzzz51hung7zzzz6hung40rohg8zzzz10rohg6zzzz38gara3zzzz29gara8zzzz2gara208zzzz31arab1zzzz42yezi",
   "1zzzz3yezi2zzzz2yezi16zzzz3arab55zzzz4arab40sogo8zzzz42sogd22zzzz26ougr38zzzz28chrs20zzzz23elym",
   "9zzzz78brah4zzzz36brah9zzzz1brah67kthi10zzzz1kthi2zzzz25sora7zzzz10sora6zzzz53cakm1zzzz18cakm",
   "8zzzz39mahj9zzzz96shrd1zzzz20sinh11zzzz18khoj1zzzz47khoj62zzzz7mult1zzzz1mult1zzzz4mult1zzzz",
   "15mult1zzzz11mult6zzzz59sind5zzzz10sind6zzzz4gran1zzzz8gran2zzzz2gran2zzzz22gran1zzzz7gran1zzzz",
   "2gran1zzzz5gran1zzzz1zinh9gran2zzzz2gran2zzzz3gran2zzzz1gran6zzzz1gran5zzzz7gran2zzzz7gran3zzzz",
   "5gran11zzzz10tutg1zzzz1tutg2zzzz1tutg1zzzz38tutg1zzzz10tutg1zzzz1tutg2zzzz1tutg1zzzz4tutg1zzzz",
   "10tutg1zzzz2tutg8zzzz2tutg29zzzz92newa1zzzz5newa30zzzz72tirh8zzzz10tirh166zzzz54sidd2zzzz38sidd",
   "34zzzz69modi11zzzz10modi6zzzz13mong19zzzz58takr6zzzz10takr6zzzz20mymr28zzzz27ahom2zzzz15ahom",
   "4zzzz23ahom185zzzz60dogr100zzzz83wara12zzzz1wara7diak2zzzz1diak2zzzz8diak1zzzz2diak1zzzz30diak",
   "1zzzz2diak2zzzz12diak9zzzz10diak70zzzz8nand2zzzz46nand2zzzz11nand27zzzz72zanb8zzzz83soyo13zzzz",
   "16cans57pauc7zzzz10deva182zzzz34sunu14zzzz10sunu6zzzz9bhks1zzzz45bhks1zzzz14bhks10zzzz29bhks",
   "3zzzz32marc2zzzz22marc1zzzz14marc73zzzz7gonm1zzzz2gonm1zzzz44gonm3zzzz1gonm1zzzz2gonm1zzzz9gonm",
   "8zzzz10gonm6zzzz6gong1zzzz2gong1zzzz37gong1zzzz2gong1zzzz6gong7zzzz10gong310zzzz25maka7zzzz",
   "17kawi1zzzz41kawi3zzzz29kawi85zzzz1lisu15zzzz50taml13zzzz1taml922xsux102zzzz111xsux1zzzz5xsux",
   "11zzzz196xsux2636zzzz99cpmn13zzzz1110egyp10zzzz3995egyp5zzzz583hluw6841zzzz58gukh1734zzzz",
   "569bamu7zzzz31mroo1zzzz10mroo4zzzz2mroo79tnsa1zzzz10tnsa6zzzz30bass2zzzz6bass10zzzz70hmng10zzzz",
   "10hmng1zzzz7hmng1zzzz21hmng5zzzz19hmng432zzzz58krai198zzzz91medf101zzzz75plrd4zzzz57plrd7zzzz",
   "17plrd64zzzz1tang1nshu2hani1kits11zzzz2hani14zzzz6136tang8zzzz768tang470kits41zzzz1kits9tang",
   "8935zzzz4kana1zzzz7kana1zzzz2kana1zzzz1kana287hira3kana15zzzz1hira29zzzz3hira2zzzz1kana14zzzz",
   "4kana8zzzz396nshu2308zzzz107dupl5zzzz13dupl3zzzz9dupl7zzzz10dupl2zzzz4dupl4zyyy3932zzzz250zyyy",
   "6zzzz436zyyy76zzzz46zinh2zzzz23zinh9zzzz116zyyy60zzzz246zyyy10zzzz39zyyy2zzzz62zyyy3zinh17zyyy",
   "8zinh2zyyy7zinh30zyyy4zinh61zyyy21zzzz70grek122zzzz20zyyy12zzzz20zyyy12zzzz87zyyy9zzzz25zyyy",
   "135zzzz85zyyy1zzzz71zyyy1zzzz2zyyy2zzzz1zyyy2zzzz2zyyy2zzzz4zyyy1zzzz12zyyy1zzzz1zyyy1zzzz7zyyy",
   "1zzzz65zyyy1zzzz4zyyy2zzzz8zyyy1zzzz7zyyy1zzzz28zyyy1zzzz4zyyy1zzzz5zyyy1zzzz1zyyy3zzzz7zyyy",
   "1zzzz340zyyy2zzzz292zyyy2zzzz50zyyy652sgnw15zzzz5sgnw1zzzz15sgnw1104zzzz31latn6zzzz6latn213zzzz",
   "7glag1zzzz17glag2zzzz7glag1zzzz2glag1zzzz5glag5zzzz62cyrl33zzzz1cyrl112zzzz45hmnp3zzzz14hmnp",
   "2zzzz10hmnp4zzzz2hmnp320zzzz31toto17zzzz58wcho5zzzz1wcho464zzzz42nagm214zzzz43onao4zzzz1onao",
   "480zzzz7ethi1zzzz4ethi1zzzz2ethi1zzzz15ethi1zzzz197mend2zzzz16mend41zzzz76adlm4zzzz10adlm4zzzz",
   "2adlm785zzzz68zyyy76zzzz61zyyy194zzzz4arab1zzzz27arab1zzzz2arab1zzzz1arab2zzzz1arab1zzzz10arab",
   "1zzzz4arab1zzzz1arab1zzzz1arab6zzzz1arab4zzzz1arab1zzzz1arab1zzzz1arab1zzzz3arab1zzzz2arab1zzzz",
   "1arab2zzzz1arab1zzzz1arab1zzzz1arab1zzzz1arab1zzzz1arab1zzzz2arab1zzzz1arab2zzzz4arab1zzzz7arab",
   "1zzzz4arab1zzzz4arab1zzzz1arab1zzzz10arab1zzzz17arab5zzzz3arab1zzzz5arab1zzzz17arab52zzzz2arab",
   "270zzzz44zyyy4zzzz100zyyy12zzzz15zyyy2zzzz15zyyy1zzzz15zyyy1zzzz37zyyy10zzzz174zyyy56zzzz26zyyy",
   "1hira2zyyy13zzzz44zyyy4zzzz9zyyy7zzzz2zyyy14zzzz6zyyy154zzzz984zyyy4zzzz17zyyy3zzzz13zyyy3zzzz",
   "119zyyy4zzzz95zyyy6zzzz12zyyy4zzzz1zyyy15zzzz12zyyy4zzzz56zyyy8zzzz10zyyy6zzzz40zyyy8zzzz30zyyy",
   "2zzzz12zyyy4zzzz2zyyy62zzzz340zyyy12zzzz14zyyy2zzzz13zyyy3zzzz10zyyy5zzzz56zyyy7zzzz15zyyy2zzzz",
   "11zyyy6zzzz9zyyy7zzzz147zyyy1zzzz102zyyy1030zzzz42720hani32zzzz4154hani6zzzz222hani2zzzz",
   "5762hani14zzzz7473hani15zzzz622hani2466zzzz542hani1506zzzz4939hani5zzzz4192hani711761zzzz1zyyy",
   "30zzzz96zyyy128zzzz240zinh196112zzzz"]

/-- The characters that are used in other scripts than their own alone: first and last code point of a
range, and the codes of all scripts in which it is used. -/
def extendedScripts : List (Nat × Nat × List String) :=
  [(0xb7, 0xb7, ["avst", "cari", "copt", "dupl", "elba", "geor", "glag", "gong", "goth", "grek",
    "hani", "latn", "lydi", "mahj", "perm", "shaw"]),
   (0x2bc, 0x2bc, ["beng", "cyrl", "deva", "latn", "lisu", "thai", "toto"]),
   (0x2c7, 0x2c7, ["bopo", "latn"]), (0x2c9, 0x2cb, ["bopo", "latn"]),
   (0x2cd, 0x2cd, ["latn", "lisu"]), (0x2d7, 0x2d7, ["latn", "thai"]),
   (0x2d9, 0x2d9, ["bopo", "latn"]),
   (0x300, 0x300, ["cher", "copt", "cyrl", "grek", "latn", "perm", "sunu", "tale"]),
   (0x301, 0x301, ["cher", "cyrl", "grek", "latn", "osge", "sunu", "tale", "todr"]),
   (0x302, 0x302, ["cher", "cyrl", "latn", "tfng"]),
   (0x303, 0x303, ["glag", "latn", "sunu", "syrc", "thai"]),
   (0x304, 0x304, ["aghb", "cher", "copt", "cyrl", "goth", "grek", "latn", "osge", "syrc", "tfng",
     "todr"]),
   (0x305, 0x305, ["copt", "elba", "glag", "goth", "kana", "latn"]),
   (0x306, 0x306, ["cyrl", "grek", "latn", "perm", "tfng"]),
   (0x307, 0x307, ["copt", "dupl", "hebr", "latn", "perm", "syrc", "tale", "tfng", "todr"]),
   (0x308, 0x308, ["armn", "cyrl", "dupl", "goth", "grek", "hebr", "latn", "perm", "syrc", "tale",
     "tfng"]),
   (0x309, 0x309, ["latn", "tfng"]), (0x30a, 0x30a, ["dupl", "latn", "syrc"]),
   (0x30b, 0x30b, ["cher", "cyrl", "latn", "osge"]), (0x30c, 0x30c, ["cher", "latn", "tale"]),
   (0x30d, 0x30d, ["latn", "sunu"]), (0x30e, 0x30e, ["ethi", "latn"]),
   (0x310, 0x310, ["latn", "sunu"]), (0x311, 0x311, ["cyrl", "latn", "todr"]),
   (0x313, 0x313, ["grek", "latn", "perm", "todr"]),
   (0x323, 0x323, ["cher", "dupl", "kana", "latn", "syrc", "tfng"]),
   (0x324, 0x324, ["cher", "dupl", "latn", "syrc"]), (0x325, 0x325, ["latn", "syrc"]),
   (0x32d, 0x32d, ["latn", "sunu", "syrc"]), (0x32e, 0x32e, ["latn", "syrc"]),
   (0x330, 0x330, ["cher", "latn", "syrc"]),
   (0x331, 0x331, ["aghb", "cher", "goth", "latn", "sunu", "syrc", "thai"]),
   (0x342, 0x342, ["grek"]), (0x345, 0x345, ["grek"]), (0x358, 0x358, ["latn", "osge"]),
   (0x35e, 0x35e, ["aghb", "latn", "todr"]), (0x363, 0x36f, ["latn"]),
   (0x374, 0x375, ["copt", "grek"]), (0x483, 0x483, ["cyrl", "perm"]),
   (0x484, 0x484, ["cyrl", "glag"]), (0x485, 0x486, ["cyrl", "latn"]),
   (0x487, 0x487, ["cyrl", "glag"]), (0x589, 0x589, ["armn", "geor", "glag"]),
   (0x60c, 0x60c, ["arab", "gara", "nkoo", "rohg", "syrc", "thaa", "yezi"]),
   (0x61b, 0x61b, ["arab", "gara", "nkoo", "rohg", "syrc", "thaa", "yezi"]),
   (0x61c, 0x61c, ["arab", "syrc", "thaa"]),
   (0x61f, 0x61f, ["adlm", "arab", "gara", "nkoo", "rohg", "syrc", "thaa", "yezi"]),
   (0x640, 0x640, ["adlm", "arab", "mand", "mani", "ougr", "phlp", "rohg", "sogd", "syrc"]),
   (0x64b, 0x655, ["arab", "syrc"]), (0x660, 0x669, ["arab", "thaa", "yezi"]),
   (0x670, 0x670, ["arab", "syrc"]), (0x6d4, 0x6d4, ["arab", "rohg"]),
   (0x951, 0x951, ["beng", "deva", "gran", "gujr", "guru", "knda", "latn", "mlym", "nand", "newa",
     "orya", "shrd", "taml", "telu", "tirh"]),
   (0x952, 0x952, ["beng", "deva", "gran", "gujr", "guru", "knda", "latn", "mlym", "newa", "orya",
     "taml", "telu", "tirh"]),
   (0x964, 0x964, ["beng", "deva", "dogr", "gong", "gonm", "gran", "gujr", "guru", "knda", "mahj",
     "mlym", "nand", "onao", "orya", "sind", "sinh", "sylo", "takr", "taml", "telu", "tirh"]),
   (0x965, 0x965, ["beng", "deva", "dogr", "gong", "gonm", "gran", "gujr", "gukh", "guru", "knda",
     "limb", "mahj", "mlym", "nand", "onao", "orya", "sind", "sinh", "sylo", "takr", "taml", "telu",
     "tirh"]),
   (0x966, 0x96f, ["deva", "dogr", "kthi", "mahj"]), (0x9e6, 0x9ef, ["beng", "cakm", "sylo"]),
   (0xa66, 0xa6f, ["guru", "mult"]), (0xae6, 0xaef, ["gujr", "khoj"]),
   (0xbe6, 0xbf3, ["gran", "taml"]), (0xce6, 0xcef, ["knda", "nand", "tutg"]),
   (0x1040, 0x1049, ["cakm", "mymr", "tale"]), (0x10fb, 0x10fb, ["geor", "glag", "latn"]),
   (0x16eb, 0x16ed, ["runr"]), (0x1735, 0x1736, ["buhd", "hano", "tagb", "tglg"]),
   (0x1802, 0x1803, ["mong", "phag"]), (0x1805, 0x1805, ["mong", "phag"]),
   (0x1cd0, 0x1cd0, ["beng", "deva", "gran", "knda"]), (0x1cd1, 0x1cd1, ["deva"]),
   (0x1cd2, 0x1cd2, ["beng", "deva", "gran", "knda"]), (0x1cd3, 0x1cd3, ["deva", "gran", "knda"]),
   (0x1cd4, 0x1cd4, ["deva"]), (0x1cd5, 0x1cd5, ["beng", "deva", "newa", "telu", "tirh"]),
   (0x1cd6, 0x1cd6, ["beng", "deva", "telu"]), (0x1cd7, 0x1cd7, ["deva", "newa", "shrd"]),
   (0x1cd8, 0x1cd8, ["beng", "deva", "newa", "telu"]), (0x1cd9, 0x1cd9, ["deva", "shrd"]),
   (0x1cda, 0x1cda, ["deva", "knda", "mlym", "orya", "taml", "telu"]), (0x1cdb, 0x1cdb, ["deva"]),
   (0x1cdc, 0x1cdd, ["deva", "shrd"]), (0x1cde, 0x1cdf, ["deva"]),
   (0x1ce0, 0x1ce0, ["deva", "shrd"]), (0x1ce1, 0x1ce1, ["beng", "deva"]),
   (0x1ce2, 0x1ce2, ["deva", "newa", "tirh"]), (0x1ce3, 0x1ce8, ["deva"]),
   (0x1ce9, 0x1ce9, ["deva", "nand", "newa"]), (0x1cea, 0x1cea, ["beng", "deva", "shrd"]),
   (0x1ceb, 0x1ceb, ["deva", "newa"]), (0x1cec, 0x1cec, ["deva"]),
   (0x1ced, 0x1ced, ["beng", "deva", "newa", "shrd"]), (0x1cee, 0x1cf1, ["deva"]),
   (0x1cf2, 0x1cf2, ["beng", "deva", "gran", "knda", "mlym", "nand", "orya", "sinh", "telu", "tirh",
     "tutg"]),
   (0x1cf3, 0x1cf3, ["deva", "gran"]), (0x1cf4, 0x1cf4, ["deva", "gran", "knda", "tutg"]),
   (0x1cf5, 0x1cf6, ["beng", "deva"]), (0x1cf7, 0x1cf7, ["beng"]),
   (0x1cf8, 0x1cf9, ["deva", "gran"]), (0x1cfa, 0x1cfa, ["nand"]), (0x1dc0, 0x1dc1, ["grek"]),
   (0x1df8, 0x1df8, ["cyrl", "latn", "syrc"]), (0x1dfa, 0x1dfa, ["syrc"]),
   (0x202f, 0x202f, ["latn", "mong", "phag"]), (0x204f, 0x204f, ["adlm", "arab"]),
   (0x205a, 0x205a, ["cari", "geor", "glag", "hung", "lyci", "orkh"]),
   (0x205d, 0x205d, ["cari", "grek", "hung", "mero"]), (0x20f0, 0x20f0, ["deva", "gran", "latn"]),
   (0x2e17, 0x2e17, ["copt", "latn"]), (0x2e30, 0x2e30, ["avst", "orkh"]),
   (0x2e31, 0x2e31, ["avst", "cari", "geor", "hung", "kthi", "lydi", "samr"]),
   (0x2e3c, 0x2e3c, ["dupl"]), (0x2e41, 0x2e41, ["adlm", "arab", "hung"]),
   (0x2e43, 0x2e43, ["cyrl", "glag"]), (0x2ff0, 0x2fff, ["hani", "tang"]),
   (0x3001, 0x3001, ["bopo", "hang", "hani", "hira", "kana", "mong", "yiii"]),
   (0x3002, 0x3002, ["bopo", "hang", "hani", "hira", "kana", "mong", "phag", "yiii"]),
   (0x3003, 0x3003, ["bopo", "hang", "hani", "hira", "kana"]), (0x3006, 0x3006, ["hani"]),
   (0x3008, 0x3009, ["bopo", "hang", "hani", "hira", "kana", "mong", "tibt", "yiii"]),
   (0x300a, 0x300b, ["bopo", "hang", "hani", "hira", "kana", "lisu", "mong", "tibt", "yiii"]),
   (0x300c, 0x3011, ["bopo", "hang", "hani", "hira", "kana", "yiii"]),
   (0x3013, 0x3013, ["bopo", "hang", "hani", "hira", "kana"]),
   (0x3014, 0x301b, ["bopo", "hang", "hani", "hira", "kana", "yiii"]),
   (0x301c, 0x301f, ["bopo", "hang", "hani", "hira", "kana"]), (0x302a, 0x302d, ["bopo", "hani"]),
   (0x3030, 0x3030, ["bopo", "hang", "hani", "hira", "kana"]), (0x3031, 0x3035, ["hira", "kana"]),
   (0x3037, 0x3037, ["bopo", "hang", "hani", "hira", "kana"]),
   (0x303c, 0x303d, ["hani", "hira", "kana"]), (0x303e, 0x303f, ["hani"]),
   (0x3099, 0x309c, ["hira", "kana"]), (0x30a0, 0x30a0, ["hira", "kana"]),
   (0x30fb, 0x30fb, ["bopo", "hang", "hani", "hira", "kana", "yiii"]),
   (0x30fc, 0x30fc, ["hira", "kana"]), (0x3190, 0x319f, ["hani"]), (0x31c0, 0x31e5, ["hani"]),
   (0x31ef, 0x31ef, ["hani", "tang"]), (0x3220, 0x3247, ["hani"]), (0x3280, 0x32b0, ["hani"]),
   (0x32c0, 0x32cb, ["hani"]), (0x32ff, 0x32ff, ["hani"]), (0x3358, 0x3370, ["hani"]),
   (0x337b, 0x337f, ["hani"]), (0x33e0, 0x33fe, ["hani"]), (0xa66f, 0xa66f, ["cyrl", "glag"]),
   (0xa700, 0xa707, ["hani", "latn"]),
   (0xa830, 0xa832, ["deva", "dogr", "gujr", "guru", "khoj", "knda", "kthi", "mahj", "mlym", "modi",
     "nand", "shrd", "sind", "takr", "tirh", "tutg"]),
   (0xa833, 0xa835, ["deva", "dogr", "gujr", "guru", "khoj", "knda", "kthi", "mahj", "modi", "nand",
     "shrd", "sind", "takr", "tirh", "tutg"]),
   (0xa836, 0xa837, ["deva", "dogr", "gujr", "guru", "khoj", "kthi", "mahj", "modi", "sind", "takr",
     "tirh"]),
   (0xa838, 0xa838, ["deva", "dogr", "gujr", "guru", "khoj", "kthi", "mahj", "modi", "shrd", "sind",
     "takr", "tirh"]),
   (0xa839, 0xa839, ["deva", "dogr", "gujr", "guru", "khoj", "kthi", "mahj", "modi", "sind", "takr",
     "tirh"]),
   (0xa8f1, 0xa8f1, ["beng", "deva", "tutg"]), (0xa8f3, 0xa8f3, ["deva", "taml"]),
   (0xa92e, 0xa92e, ["kali", "latn", "mymr"]), (0xa9cf, 0xa9cf, ["bugi", "java"]),
   (0xfd3e, 0xfd3f, ["arab", "nkoo"]), (0xfdf2, 0xfdf2, ["arab", "thaa"]),
   (0xfdfd, 0xfdfd, ["arab", "thaa"]), (0xfe45, 0xfe46, ["bopo", "hang", "hani", "hira", "kana"]),
   (0xff61, 0xff65, ["bopo", "hang", "hani", "hira", "kana", "yiii"]),
   (0xff70, 0xff70, ["hira", "kana"]), (0xff9e, 0xff9f, ["hira", "kana"]),
   (0x10100, 0x10101, ["cpmn", "cprt", "linb"]), (0x10102, 0x10102, ["cprt", "linb"]),
   (0x10107, 0x10133, ["cprt", "lina", "linb"]), (0x10137, 0x1013f, ["cprt", "linb"]),
   (0x102e0, 0x102fb, ["arab", "copt"]), (0x10af2, 0x10af2, ["mani", "ougr"]),
   (0x11301, 0x11301, ["gran", "taml"]), (0x11303, 0x11303, ["gran", "taml"]),
   (0x1133b, 0x1133c, ["gran", "taml"]), (0x11fd0, 0x11fd1, ["gran", "taml"]),
   (0x11fd3, 0x11fd3, ["gran", "taml"]), (0x1bca0, 0x1bca3, ["dupl"]), (0x1d360, 0x1d371, ["hani"]),
   (0x1f250, 0x1f251, ["hani"])]

/-- Read packed scripts, for the bounds of the runs of one script.  `start` is the first code point of the
run at hand and `length` what has been read of its length. -/
def runsOfScript (code : List Char) (start length : Nat) : List Char → List Nat
  | a :: b :: c :: d :: rest =>
      if a.isDigit then runsOfScript code start (10 * length + (a.toNat - 48)) (b :: c :: d :: rest)
      else if [a, b, c, d] = code then
        start :: (start + length) :: runsOfScript code (start + length) 0 rest
      else runsOfScript code (start + length) 0 rest
  | _ => []

/-- The code of a script by any of its names. -/
def scriptCode? (name : String) : Option String :=
  (scriptNames.find? (·.contains name)).bind (·.head?)

/-- The characters of a script. -/
def ofScript? (name : String) : Option CharSet :=
  (scriptCode? name).map fun code =>
    .ofBounds (runsOfScript code.toList 0 0 (packedScripts.flatMap String.toList))

/-- The characters that are used in a script. -/
def ofScriptExtended? (name : String) : Option CharSet := do
  let code ← scriptCode? name
  let own ← ofScript? name
  let bounds := fun (ranges : List (Nat × Nat × List String)) =>
    CharSet.ofBounds (ranges.flatMap fun (first, last, _) => [first, last + 1])
  let shared := bounds extendedScripts
  let used := bounds (extendedScripts.filter (·.2.2.contains code))
  return (own.diff shared).union used

end GrammarKit.Unicode
